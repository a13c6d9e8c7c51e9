import GlobeBins.Proofs.Geometry.Exact

namespace GlobeBins

namespace Ring

section

variable {κ : Type} {r : Ring κ}

/-- Ends where it begins. -/
def Closed (r : Ring κ) : Prop := r.head? = r.getLast?

end

end Ring

section

variable {K : Type} [Field K] [LinearOrder K] [IsStrictOrderedRing K] [FloorSemiring K]
  {p : Point K} {x y lo hi : K} {e : Segment K} {es : List (Segment K)} {r : Ring K}

namespace Ring

/-- Edges above or below a point do not count. -/
theorem winding?_beyond (h : ¬between p.y e.start.y e.finish.y = true) :
    winding? p e = some 0 := by
  rw [between_iff,not_or,not_and,not_and] at h
  unfold winding?
  simp only
  split
  next low =>
    rw [if_neg (h.1 low)]
  next high =>
    rw [if_neg fun low => h.2 low (not_le.mp high).le]

theorem winding?_none (h : winding? p e = none) : e.covers p = true := by
  by_cases height : between p.y e.start.y e.finish.y = true
  · unfold winding? at h
    simp only at h
    rw [Segment.covers,Point.inCorners,height,Bool.and_true,Bool.and_eq_true,beq_iff_eq]
    split_ifs at h <;> assumption
  · rw [winding?_beyond height] at h
    cases h

/-- Only an edge that is touched on the way changes how it counts. -/
theorem winding?_shift (ordered : lo ≤ hi)
    (untouched : ∀ x,lo ≤ x → x ≤ hi → ¬e.covers ⟨x,y⟩ = true) :
    winding? ⟨lo,y⟩ e = winding? ⟨hi,y⟩ e := by
  by_cases height : between y e.start.y e.finish.y = true
  · have off (x : K) (west : lo ≤ x) (east : x ≤ hi) :
        ¬(Coordinate.turn e.start e.finish ⟨x,y⟩ = .straight ∧
          between x e.start.x e.finish.x = true) := by
      have not := untouched x west east
      rwa [Segment.covers,Point.inCorners,height,Bool.and_true,Bool.and_eq_true,beq_iff_eq] at not
    have turn : Coordinate.turn e.start e.finish ⟨lo,y⟩ =
        Coordinate.turn e.start e.finish ⟨hi,y⟩ := by
      by_contra differ
      obtain ⟨x,west,east,straight⟩ := exists_straight ordered (Turn.ofSign_ne differ)
      by_cases slope : e.start.y = e.finish.y
      · apply differ
        have level : e.start.area e.finish ⟨hi,y⟩ =
            e.start.area e.finish ⟨lo,y⟩+(hi-lo)*(e.start.y-e.finish.y) := area_shift
        rw [turn_eq,turn_eq,level,slope,sub_self,mul_zero,add_zero]
      · exact untouched x west east ((Segment.covers_iff_of_slope slope).mpr ⟨straight,height⟩)
    have first := off lo (le_refl lo) ordered
    have last := off hi ordered (le_refl hi)
    rw [turn] at first
    unfold winding?
    simp only [turn,if_neg first,if_neg last]
  · rw [winding?_beyond height,winding?_beyond height]

theorem windingNumber?_none (h : windingNumber? p es = none) : ∃ e ∈ es,e.covers p = true := by
  induction es with
  | nil => cases h
  | cons e es ih =>
    rw [windingNumber?] at h
    split at h
    next none => exact ⟨e,by simp,winding?_none none⟩
    next =>
      obtain ⟨f,hf,covers⟩ := ih (Option.map_eq_none_iff.mp h)
      exact ⟨f,by simp [hf],covers⟩

theorem windingNumber?_shift (ordered : lo ≤ hi)
    (untouched : ∀ e ∈ es,∀ x,lo ≤ x → x ≤ hi → ¬e.covers ⟨x,y⟩ = true) :
    windingNumber? ⟨lo,y⟩ es = windingNumber? ⟨hi,y⟩ es := by
  induction es with
  | nil => rfl
  | cons e es ih =>
    rw [windingNumber?,windingNumber?,winding?_shift ordered (untouched e (by simp)),
      ih fun f hf => untouched f (by simp [hf])]

/-- Along an untouched segment a ring has all points inside or none. -/
theorem position_shift (ordered : lo ≤ hi)
    (untouched : ∀ e ∈ edges r,∀ x,lo ≤ x → x ≤ hi → ¬e.covers ⟨x,y⟩ = true) :
    position r ⟨lo,y⟩ = .inside ↔ position r ⟨hi,y⟩ = .inside := by
  match r with
  | [] => simp [position]
  | [q] =>
    simp only [position]
    split_ifs <;> simp
  | q::q'::r => simp only [position,windingNumber?_shift ordered untouched]

/-- A point on the boundary is on an edge, if there are any. -/
theorem position_boundary (h : position r p = .boundary) :
    (∃ e ∈ edges r,e.covers p = true) ∨ r = [p] := by
  match r with
  | [] => simp [position] at h
  | [q] =>
    simp only [position] at h
    split_ifs at h with same
    rw [Segment.equal_iff.mp same]
    exact .inr rfl
  | q::q'::r =>
    simp only [position] at h
    split at h
    next none => exact .inl (windingNumber?_none none)
    next => split_ifs at h

/-- Whether a point is no higher than another, as a number. -/
def below (p q : Point K) : Int := if q.y ≤ p.y then 1 else 0

/-- Edges to the east of a point count where they go past its height. -/
theorem winding?_west (west : p.x < e.start.x ∧ p.x < e.finish.x) :
    winding? p e = some (below p e.start-below p e.finish) := by
  have start : 0 < e.start.x-p.x := sub_pos.mpr west.1
  have finish : 0 < e.finish.x-p.x := sub_pos.mpr west.2
  have off : ¬between p.x e.start.x e.finish.x = true := by
    rw [between_iff]
    exact fun h => h.elim (fun h => absurd h.1 (not_le.mpr west.1))
      (fun h => absurd h.1 (not_le.mpr west.2))
  unfold winding? below
  simp only [off,Bool.false_eq_true,and_false,if_false,turn_eq,Turn.ofSign_left,Turn.ofSign_right,
    Coordinate.equal,Bool.and_eq_true,decide_eq_true_eq]
  by_cases low : e.start.y ≤ p.y
  · simp only [if_pos low]
    rcases lt_trichotomy p.y e.finish.y with up | level | down
    · have left : 0 < e.start.area e.finish p := by
        rw [Point.area]
        linarith [mul_pos start (sub_pos.mpr up),
          mul_nonneg (sub_nonneg.mpr low) finish.le]
      rw [if_pos up.le,if_pos ⟨left,fun h => absurd h.1 (not_le.mpr up)⟩,if_neg (not_le.mpr up)]
      rfl
    · rw [if_pos level.le,if_neg fun h => h.2 ⟨level.ge,level.le⟩,if_pos level.ge]
      rfl
    · rw [if_neg (not_le.mpr down),if_pos down.le]
      rfl
  · simp only [if_neg low]
    by_cases down : e.finish.y ≤ p.y
    · have right : e.start.area e.finish p < 0 := by
        rw [Point.area]
        linarith [mul_nonneg start.le (sub_nonneg.mpr down),
          mul_pos (sub_pos.mpr (not_le.mp low)) finish]
      rw [if_pos down,if_pos right,if_pos down]
      rfl
    · rw [if_neg down,if_neg down]
      rfl

/-- Edges to the west of a point do not count. -/
theorem winding?_east (east : e.start.x < p.x ∧ e.finish.x < p.x) : winding? p e = some 0 := by
  have start : 0 < p.x-e.start.x := sub_pos.mpr east.1
  have finish : 0 < p.x-e.finish.x := sub_pos.mpr east.2
  have off : ¬between p.x e.start.x e.finish.x = true := by
    rw [between_iff]
    exact fun h => h.elim (fun h => absurd h.2 (not_le.mpr east.2))
      (fun h => absurd h.2 (not_le.mpr east.1))
  unfold winding?
  simp only [off,Bool.false_eq_true,and_false,if_false,turn_eq,Turn.ofSign_left,Turn.ofSign_right]
  split_ifs with low high left down right
  · have sign : e.start.area e.finish p ≤ 0 := by
      rw [Point.area]
      linarith [mul_nonneg start.le (sub_nonneg.mpr high),
        mul_nonneg (sub_nonneg.mpr low) finish.le]
    exact absurd left.1 (not_lt.mpr sign)
  · rfl
  · rfl
  · have sign : 0 ≤ e.start.area e.finish p := by
      rw [Point.area]
      linarith [mul_nonneg start.le (sub_nonneg.mpr down),
        mul_nonneg (sub_nonneg.mpr (not_le.mp low).le) finish.le]
    exact absurd right (not_lt.mpr sign)
  · rfl
  · rfl

/-- Beside all its points a line counts what it rises between its ends. -/
theorem windingNumber?_west (q : Point K) (r : Ring K) (west : ∀ q' ∈ q::r,p.x < q'.x) :
    windingNumber? p (edges (q::r)) =
      some (below p q-below p ((q::r).getLast (List.cons_ne_nil q r))) := by
  induction r generalizing q with
  | nil => simp [edges,windingNumber?]
  | cons q' r ih =>
    rw [edges_cons,windingNumber?,winding?_west ⟨west q (by simp),west q' (by simp)⟩]
    simp only [ih q' fun t ht => west t (by simp [ht]),Option.map_some,Option.some.injEq,
      List.getLast_cons_cons]
    ring

theorem windingNumber?_zero (each : ∀ e ∈ es,winding? p e = some 0) :
    windingNumber? p es = some 0 := by
  induction es with
  | nil => rfl
  | cons e es ih =>
    rw [windingNumber?,each e (by simp),ih fun f hf => each f (by simp [hf])]
    rfl

/-- Beside a closed ring there is nothing but outside. -/
theorem position_beyond (closed : Closed r)
    (beyond : (∀ q ∈ r,p.x < q.x) ∨ (∀ q ∈ r,q.x < p.x) ∨ (∀ q ∈ r,p.y < q.y) ∨ ∀ q ∈ r,q.y < p.y) :
    position r p = .outside := by
  match r with
  | [] => rfl
  | [q] =>
    simp only [position]
    rw [if_neg]
    intro same
    rw [Segment.equal_iff.mp same] at beyond
    simp at beyond
  | q::q'::r =>
    have zero : windingNumber? p (edges (q::q'::r)) = some 0 := by
      rcases beyond with west | other
      · have last : q = (q::q'::r).getLast (by simp) := by
          have same : (q::q'::r).head? = (q::q'::r).getLast? := closed
          rw [List.head?_cons,List.getLast?_eq_some_getLast (by simp)] at same
          exact Option.some.inj same
        rw [windingNumber?_west q _ west,← last,sub_self]
      · refine windingNumber?_zero fun e he => ?_
        obtain ⟨start,finish⟩ := mem_edges he
        rcases other with east | south | north
        · exact winding?_east ⟨east _ start,east _ finish⟩
        · refine winding?_beyond fun h => ?_
          rcases between_iff.mp h with ⟨low,_⟩ | ⟨low,_⟩
          · exact absurd low (not_le.mpr (south _ start))
          · exact absurd low (not_le.mpr (south _ finish))
        · refine winding?_beyond fun h => ?_
          rcases between_iff.mp h with ⟨_,high⟩ | ⟨_,high⟩
          · exact absurd high (not_le.mpr (north _ finish))
          · exact absurd high (not_le.mpr (north _ start))
    simp only [position,zero]
    rfl

end Ring

end

end GlobeBins

import Mathlib
import GlobeBins.Geometry.Polygon

namespace GlobeBins

attribute [ext] Point

section

variable {K : Type} [Field K] [LinearOrder K]

/-- Twice the area of a triangle, positive if it is walked to the left. -/
def Point.area (a b c : Point K) : K := (a.x-c.x)*(b.y-c.y)-(a.y-c.y)*(b.x-c.x)

def Turn.ofSign (d : K) : Turn := if 0 < d then left else if d < 0 then right else straight

/-- Numbers without rounding; all of them are finite. -/
instance Coordinate.exact [IsStrictOrderedRing K] [FloorSemiring K] : Coordinate K where
  decideLt := inferInstance
  decideLe := inferInstance
  ofNat := Nat.cast
  half := 1/2
  isFinite _ := true
  truncate x := ⌊x⌋₊
  turn a b c := .ofSign (a.area b c)

namespace Turn

variable {c d : K}

theorem ofSign_left : ofSign d = left ↔ 0 < d := by
  unfold ofSign
  split_ifs <;> simp_all

theorem ofSign_right : ofSign d = right ↔ d < 0 := by
  unfold ofSign
  split_ifs with pos neg
  · simp [pos.le]
  · simp [neg]
  · simp [neg]

theorem ofSign_straight : ofSign d = straight ↔ d = 0 := by
  unfold ofSign
  split_ifs with pos neg
  · simp [pos.ne']
  · simp [neg.ne]
  · simp only [true_iff]
    exact le_antisymm (not_lt.mp pos) (not_lt.mp neg)

/-- Different signs have zero between them. -/
theorem ofSign_ne (h : ofSign c ≠ ofSign d) : c ≤ 0 ∧ 0 ≤ d ∨ d ≤ 0 ∧ 0 ≤ c := by
  rcases lt_trichotomy c 0 with neg | zero | pos
  · rcases le_or_gt 0 d with up | down
    · exact .inl ⟨neg.le,up⟩
    · exact absurd ((ofSign_right.mpr neg).trans (ofSign_right.mpr down).symm) h
  · rcases le_total 0 d with up | down
    · exact .inl ⟨zero.le,up⟩
    · exact .inr ⟨down,zero.ge⟩
  · rcases le_or_gt d 0 with down | up
    · exact .inr ⟨down,pos.le⟩
    · exact absurd ((ofSign_left.mpr pos).trans (ofSign_left.mpr up).symm) h

end Turn

end

section

variable {K : Type} [Field K] [LinearOrder K] [IsStrictOrderedRing K] [FloorSemiring K]
  {a b p : Point K} {x x' y lo hi : K} {e : Segment K}

/-- Numbers of one sign have a positive product, unless both are zero. -/
theorem Turn.zero_of_same {c d : K} (same : ofSign c = ofSign d) (product : c*d ≤ 0) :
    c = 0 ∧ d = 0 := by
  rcases lt_trichotomy c 0 with neg | zero | pos
  · have other := ofSign_right.mp (same.symm.trans (ofSign_right.mpr neg))
    exact absurd product (not_le.mpr (mul_pos_of_neg_of_neg neg other))
  · exact ⟨zero,ofSign_straight.mp (same.symm.trans (ofSign_straight.mpr zero))⟩
  · have other := ofSign_left.mp (same.symm.trans (ofSign_left.mpr pos))
    exact absurd product (not_le.mpr (mul_pos pos other))

theorem turn_eq : Coordinate.turn a b p = .ofSign (a.area b p) := rfl

theorem between_iff {v a b : K} : between v a b = true ↔ a ≤ v ∧ v ≤ b ∨ b ≤ v ∧ v ≤ a := by
  unfold between
  split
  next lt =>
    simp only [Bool.and_eq_true,decide_eq_true_eq]
    constructor
    · exact .inl
    · intro h
      rcases h with h | ⟨low,high⟩
      · exact h
      · exact absurd (low.trans high) (not_le.mpr lt)
  next ge =>
    simp only [Bool.and_eq_true,decide_eq_true_eq]
    constructor
    · exact .inr
    · intro h
      rcases h with ⟨low,high⟩ | h
      · have same : a = b := le_antisymm (low.trans high) (not_lt.mp ge)
        subst same
        exact ⟨low,high⟩
      · exact h

namespace Segment

theorem covers_iff : e.covers p = true ↔ e.start.area e.finish p = 0 ∧
    between p.x e.start.x e.finish.x = true ∧ between p.y e.start.y e.finish.y = true := by
  rw [covers,Bool.and_eq_true,beq_iff_eq,turn_eq,Turn.ofSign_straight,Point.inCorners,
    Bool.and_eq_true]

end Segment

/-- The area changes evenly along a horizontal line. -/
theorem area_shift : a.area b ⟨x',y⟩ = a.area b ⟨x,y⟩+(x'-x)*(a.y-b.y) := by
  simp only [Point.area]
  ring

/-- Where the area changes its sign along a horizontal line, it is zero in between. -/
theorem exists_straight (ordered : lo ≤ hi)
    (signs : a.area b ⟨lo,y⟩ ≤ 0 ∧ 0 ≤ a.area b ⟨hi,y⟩ ∨ a.area b ⟨hi,y⟩ ≤ 0 ∧ 0 ≤ a.area b ⟨lo,y⟩) :
    ∃ x,lo ≤ x ∧ x ≤ hi ∧ a.area b ⟨x,y⟩ = 0 := by
  have change : a.area b ⟨hi,y⟩ = a.area b ⟨lo,y⟩+(hi-lo)*(a.y-b.y) := area_shift
  generalize a.area b ⟨hi,y⟩ = d at signs change
  have area (x : K) : a.area b ⟨x,y⟩ = a.area b ⟨lo,y⟩+(x-lo)*(a.y-b.y) := area_shift
  generalize a.area b ⟨lo,y⟩ = c at signs change area
  by_cases same : c = d
  · subst same
    have zero : c = 0 := signs.elim (fun h => le_antisymm h.1 h.2) (fun h => le_antisymm h.1 h.2)
    exact ⟨lo,le_refl lo,ordered,by rw [area,zero]; ring⟩
  · -- the share of the segment to the west of the crossing
    have ne : c-d ≠ 0 := sub_ne_zero.mpr same
    have share : 0 ≤ c/(c-d) ∧ c/(c-d) ≤ 1 := by
      rcases signs with ⟨low,high⟩ | ⟨low,high⟩
      · have neg : c-d < 0 := lt_of_le_of_ne (by linarith) ne
        exact ⟨div_nonneg_of_nonpos low neg.le,(div_le_one_of_neg neg).mpr (by linarith)⟩
      · have pos : 0 < c-d := lt_of_le_of_ne (by linarith) ne.symm
        exact ⟨div_nonneg high pos.le,(div_le_one pos).mpr (by linarith)⟩
    have width : 0 ≤ hi-lo := sub_nonneg.mpr ordered
    refine ⟨lo+c/(c-d)*(hi-lo),?_,?_,?_⟩
    · linarith [mul_nonneg share.1 width]
    · linarith [mul_le_mul_of_nonneg_right share.2 width]
    · have slope : (hi-lo)*(a.y-b.y) = -(c-d) := by linarith
      rw [area,add_sub_cancel_left,mul_assoc,slope]
      field_simp
      ring

/-- Two numbers whose weighted sum is zero are not on one side of it. -/
theorem zero_between {m n u w : K} (weights : 0 ≤ u ∧ 0 ≤ w ∨ u ≤ 0 ∧ w ≤ 0) (ne : u+w ≠ 0)
    (sum : m*u+n*w = 0) : m ≤ 0 ∧ 0 ≤ n ∨ n ≤ 0 ∧ 0 ≤ m := by
  by_contra apart
  have side : 0 < m ∧ 0 < n ∨ m < 0 ∧ n < 0 := by
    rcases lt_trichotomy m 0 with neg | zero | pos
    · exact .inr ⟨neg,not_le.mp fun h => apart (.inl ⟨neg.le,h⟩)⟩
    · rcases le_total 0 n with h | h
      · exact absurd (.inl ⟨zero.le,h⟩) apart
      · exact absurd (.inr ⟨h,zero.ge⟩) apart
    · exact .inl ⟨pos,not_le.mp fun h => apart (.inr ⟨h,pos.le⟩)⟩
  have signs : 0 ≤ m*u ∧ 0 ≤ n*w ∨ m*u ≤ 0 ∧ n*w ≤ 0 := by
    rcases side with ⟨hm,hn⟩ | ⟨hm,hn⟩ <;> rcases weights with ⟨hu,hw⟩ | ⟨hu,hw⟩
    · exact .inl ⟨mul_nonneg hm.le hu,mul_nonneg hn.le hw⟩
    · exact .inr ⟨mul_nonpos_of_nonneg_of_nonpos hm.le hu,mul_nonpos_of_nonneg_of_nonpos hn.le hw⟩
    · exact .inr ⟨mul_nonpos_of_nonpos_of_nonneg hm.le hu,mul_nonpos_of_nonpos_of_nonneg hn.le hw⟩
    · exact .inl ⟨mul_nonneg_of_nonpos_of_nonpos hm.le hu,mul_nonneg_of_nonpos_of_nonpos hn.le hw⟩
  have hm : m ≠ 0 := side.elim (fun h => h.1.ne') (fun h => h.1.ne)
  have hn : n ≠ 0 := side.elim (fun h => h.2.ne') (fun h => h.2.ne)
  have first : m*u = 0 := by rcases signs with h | h <;> linarith
  have second : n*w = 0 := by rcases signs with h | h <;> linarith
  apply ne
  rw [(mul_eq_zero.mp first).resolve_left hm,(mul_eq_zero.mp second).resolve_left hn,add_zero]

/-- A point of a line at a height between two points of it that are not level lies between them. -/
theorem between_of_straight (straight : a.area b p = 0) (slope : a.y ≠ b.y)
    (height : between p.y a.y b.y = true) : between p.x a.x b.x = true := by
  have weights : 0 ≤ b.y-p.y ∧ 0 ≤ p.y-a.y ∨ b.y-p.y ≤ 0 ∧ p.y-a.y ≤ 0 := by
    rcases between_iff.mp height with ⟨low,high⟩ | ⟨low,high⟩
    · exact .inl ⟨by linarith,by linarith⟩
    · exact .inr ⟨by linarith,by linarith⟩
  have ne : b.y-p.y+(p.y-a.y) ≠ 0 := by
    rw [sub_add_sub_cancel]
    exact sub_ne_zero.mpr slope.symm
  have sum : (a.x-p.x)*(b.y-p.y)+(b.x-p.x)*(p.y-a.y) = 0 := by
    rw [← straight,Point.area]
    ring
  rw [between_iff]
  rcases zero_between weights ne sum with ⟨low,high⟩ | ⟨low,high⟩
  · exact .inl ⟨by linarith,by linarith⟩
  · exact .inr ⟨by linarith,by linarith⟩

/-- If the ends of a horizontal segment are on one side of a line, so is all of it. -/
theorem straight_of_same_turn (west : lo ≤ x) (east : x ≤ hi)
    (same : Turn.ofSign (a.area b ⟨lo,y⟩) = Turn.ofSign (a.area b ⟨hi,y⟩))
    (straight : a.area b ⟨x,y⟩ = 0) : a.area b ⟨lo,y⟩ = 0 := by
  have first : a.area b ⟨lo,y⟩ = a.area b ⟨x,y⟩+(lo-x)*(a.y-b.y) := area_shift
  have last : a.area b ⟨hi,y⟩ = a.area b ⟨x,y⟩+(hi-x)*(a.y-b.y) := area_shift
  rw [straight,zero_add] at first last
  refine (Turn.zero_of_same same ?_).1
  have square : a.area b ⟨lo,y⟩*a.area b ⟨hi,y⟩ = -((x-lo)*(hi-x))*(a.y-b.y)^2 := by
    rw [first,last]
    ring
  rw [square]
  refine mul_nonpos_of_nonpos_of_nonneg ?_ (sq_nonneg _)
  exact neg_nonpos.mpr (mul_nonneg (sub_nonneg.mpr west) (sub_nonneg.mpr east))

theorem area_level : (⟨lo,y⟩ : Point K).area ⟨hi,y⟩ p = (y-p.y)*(lo-hi) := by
  simp only [Point.area]
  ring

/-- A horizontal line separates two points that are not level exactly if it is between them. -/
theorem separates_iff (wide : lo < hi) (slope : a.y ≠ b.y) :
    Turn.ofSign ((⟨lo,y⟩ : Point K).area ⟨hi,y⟩ a) ≠ Turn.ofSign ((⟨lo,y⟩ : Point K).area ⟨hi,y⟩ b) ↔
      between y a.y b.y = true := by
  have width : lo-hi < 0 := sub_neg.mpr wide
  rw [area_level,area_level,between_iff]
  constructor
  · intro h
    rcases Turn.ofSign_ne h with ⟨up,down⟩ | ⟨up,down⟩
    · have first := nonneg_of_mul_nonpos_left up width
      have second := nonpos_of_mul_nonneg_left down width
      exact .inl ⟨by linarith,by linarith⟩
    · have first := nonneg_of_mul_nonpos_left up width
      have second := nonpos_of_mul_nonneg_left down width
      exact .inr ⟨by linarith,by linarith⟩
  · intro within same
    have square : (y-a.y)*(lo-hi)*((y-b.y)*(lo-hi)) = -((y-a.y)*(b.y-y))*(lo-hi)^2 := by ring
    have sides : 0 ≤ (y-a.y)*(b.y-y) := by
      rcases within with ⟨low,high⟩ | ⟨low,high⟩
      · exact mul_nonneg (sub_nonneg.mpr low) (sub_nonneg.mpr high)
      · exact mul_nonneg_of_nonpos_of_nonpos (sub_nonpos.mpr high) (sub_nonpos.mpr low)
    have zero := Turn.zero_of_same same (by
      rw [square]
      exact mul_nonpos_of_nonpos_of_nonneg (neg_nonpos.mpr sides) (sq_nonneg _))
    have first := (mul_eq_zero.mp zero.1).resolve_right width.ne
    have second := (mul_eq_zero.mp zero.2).resolve_right width.ne
    exact slope (by linarith)

namespace Segment

theorem covers_iff_of_slope (slope : e.start.y ≠ e.finish.y) : e.covers p = true ↔
    e.start.area e.finish p = 0 ∧ between p.y e.start.y e.finish.y = true := by
  rw [covers_iff]
  exact ⟨fun h => ⟨h.1,h.2.2⟩,fun h => ⟨h.1,between_of_straight h.1 slope h.2,h.2⟩⟩

/-- A level edge covers the points between its ends. -/
theorem covers_iff_of_level (level : e.start.y = e.finish.y) : e.covers p = true ↔
    p.y = e.start.y ∧ between p.x e.start.x e.finish.x = true := by
  rw [covers_iff,between_iff,between_iff]
  constructor
  · intro h
    obtain ⟨_,within,height⟩ := h
    rw [← level] at height
    exact ⟨height.elim (fun h => le_antisymm h.2 h.1) (fun h => le_antisymm h.2 h.1),within⟩
  · intro h
    obtain ⟨height,within⟩ := h
    refine ⟨?_,within,.inl ⟨height.ge,(height.trans level).le⟩⟩
    rw [Point.area,← level,height]
    ring

theorem equal_iff {q : Point K} : p.equal q = true ↔ p = q := by
  obtain ⟨px,py⟩ := p
  obtain ⟨qx,qy⟩ := q
  simp only [Point.equal,Coordinate.equal,Bool.and_eq_true,decide_eq_true_eq,Point.mk.injEq]
  exact and_congr le_antisymm_iff.symm le_antisymm_iff.symm

/-- The level reach covers what is at its height and between its ends. -/
theorem reach_covers (ordered : lo ≤ hi) : (⟨⟨lo,y⟩,⟨hi,y⟩⟩ : Segment K).covers p = true ↔
    p.y = y ∧ lo ≤ p.x ∧ p.x ≤ hi := by
  rw [covers_iff_of_level rfl,between_iff]
  refine and_congr_right fun _ => ⟨?_,.inl⟩
  intro h
  rcases h with h | ⟨low,high⟩
  · exact h
  · exact ⟨ordered.trans low,high.trans ordered⟩

theorem reach_corners (ordered : lo ≤ hi) : p.inCorners ⟨lo,y⟩ ⟨hi,y⟩ = true ↔
    p.y = y ∧ lo ≤ p.x ∧ p.x ≤ hi := by
  rw [← reach_covers ordered,covers_iff_of_level rfl,Point.inCorners,Bool.and_eq_true,and_comm]
  refine and_congr_left fun _ => ?_
  rw [between_iff,or_self,← le_antisymm_iff,eq_comm]

theorem meets_iff_of_point (ordered : lo ≤ hi) (point : e.start = e.finish) :
    e.meets ⟨⟨lo,y⟩,⟨hi,y⟩⟩ = true ↔ ∃ x,lo ≤ x ∧ x ≤ hi ∧ e.covers ⟨x,y⟩ = true := by
  have covers (x : K) : e.covers ⟨x,y⟩ = true ↔ e.start = ⟨x,y⟩ := by
    rw [covers_iff_of_level (congrArg Point.y point),← point,between_iff,or_self,
      ← le_antisymm_iff,Point.ext_iff,and_comm,@eq_comm K y]
  rw [meets,if_pos (equal_iff.mpr point),reach_covers ordered]
  simp only [covers]
  constructor
  · intro h
    obtain ⟨rfl,low,high⟩ := h
    exact ⟨_,low,high,rfl⟩
  · intro h
    obtain ⟨x,low,high,here⟩ := h
    rw [here]
    exact ⟨rfl,low,high⟩

theorem meets_iff_of_level (ordered : lo ≤ hi) (long : e.start ≠ e.finish)
    (level : e.start.y = e.finish.y) :
    e.meets ⟨⟨lo,y⟩,⟨hi,y⟩⟩ = true ↔ ∃ x,lo ≤ x ∧ x ≤ hi ∧ e.covers ⟨x,y⟩ = true := by
  have width : e.start.x-e.finish.x ≠ 0 := by
    intro same
    exact long (Point.ext (sub_eq_zero.mp same) level)
  have area (x : K) : e.start.area e.finish ⟨x,y⟩ = (e.start.y-y)*(e.start.x-e.finish.x) := by
    rw [Point.area,← level]
    ring
  simp only [covers_iff_of_level level]
  rw [meets,if_neg (mt equal_iff.mp long)]
  simp only [turn_eq,area,ne_eq,not_true_eq_false,if_false,Turn.ofSign_straight]
  by_cases height : y = e.start.y
  · subst height
    rw [if_pos (by rw [sub_self,zero_mul]),Bool.or_eq_true,Bool.or_eq_true,reach_corners ordered]
    simp only [Point.inCorners,Bool.and_eq_true,between_iff,← level,le_refl,and_self,or_self,
      and_true,true_and]
    constructor
    · intro h
      obtain (west | east) | inside := h
      · exact ⟨lo,le_refl lo,ordered,west⟩
      · exact ⟨hi,ordered,le_refl hi,east⟩
      · exact ⟨e.finish.x,inside.1,inside.2,(le_total e.start.x e.finish.x).imp
          (fun h => ⟨h,le_refl _⟩) (fun h => ⟨le_refl _,h⟩)⟩
    · intro h
      obtain ⟨x,low,high,⟨first,last⟩ | ⟨first,last⟩⟩ := h
      · rcases le_total e.finish.x hi with within | beyond
        · exact .inr ⟨low.trans last,within⟩
        · exact .inl (.inr (.inl ⟨first.trans high,beyond⟩))
      · rcases le_total lo e.finish.x with within | beyond
        · exact .inr ⟨within,first.trans high⟩
        · exact .inl (.inl (.inr ⟨beyond,low.trans last⟩))
  · have apart : e.start.y-y ≠ 0 := sub_ne_zero.mpr (Ne.symm height)
    rw [if_neg (mul_ne_zero apart width)]
    simp [height]

theorem meets_iff_of_slope (ordered : lo ≤ hi) (slope : e.start.y ≠ e.finish.y) :
    e.meets ⟨⟨lo,y⟩,⟨hi,y⟩⟩ = true ↔ ∃ x,lo ≤ x ∧ x ≤ hi ∧ e.covers ⟨x,y⟩ = true := by
  have long : e.start ≠ e.finish := fun same => slope (congrArg Point.y same)
  simp only [covers_iff_of_slope slope]
  rw [meets,if_neg (mt equal_iff.mp long)]
  simp only [turn_eq]
  split
  next differ =>
    have wide : lo < hi := by
      refine lt_of_le_of_ne ordered fun same => differ ?_
      rw [same]
    obtain ⟨x,low,high,straight⟩ := exists_straight ordered (Turn.ofSign_ne differ)
    rw [decide_eq_true_eq,separates_iff wide slope]
    exact ⟨fun within => ⟨x,low,high,straight,within⟩,fun h => h.choose_spec.2.2.2⟩
  next same =>
    rw [ne_eq,not_not] at same
    split
    next straight =>
      -- both ends are on the line of the edge, so they are one point
      have west := Turn.ofSign_straight.mp straight
      have east := Turn.ofSign_straight.mp (same.symm.trans straight)
      have shift : (hi-lo)*(e.start.y-e.finish.y) = 0 := by
        have change : e.start.area e.finish ⟨hi,y⟩ =
            e.start.area e.finish ⟨lo,y⟩+(hi-lo)*(e.start.y-e.finish.y) := area_shift
        rw [← east,change,west,zero_add]
      have one : hi = lo :=
        sub_eq_zero.mp ((mul_eq_zero.mp shift).resolve_right (sub_ne_zero.mpr slope))
      subst one
      have within : Point.inCorners ⟨hi,y⟩ e.start e.finish = true ↔
          between y e.start.y e.finish.y = true := by
        rw [Point.inCorners,Bool.and_eq_true]
        exact ⟨And.right,fun h => ⟨between_of_straight west slope h,h⟩⟩
      rw [Bool.or_eq_true,Bool.or_self,within,reach_corners (le_refl hi)]
      constructor
      · intro h
        refine ⟨hi,le_refl hi,le_refl hi,west,?_⟩
        rcases h with h | ⟨height,_⟩
        · exact h
        · rw [between_iff,height]
          exact (le_total e.start.y y).imp (fun h => ⟨h,le_refl y⟩) (fun h => ⟨le_refl y,h⟩)
      · intro h
        obtain ⟨_,_,_,_,h⟩ := h
        exact .inl h
    next bent =>
      simp only [Bool.false_eq_true,false_iff,not_exists,not_and]
      intro x low high straight
      exact absurd (Turn.ofSign_straight.mpr (straight_of_same_turn low high same straight)) bent

/-- An edge meets a horizontal segment exactly if it covers a point of it. -/
theorem meets_iff (ordered : lo ≤ hi) : e.meets ⟨⟨lo,y⟩,⟨hi,y⟩⟩ = true ↔
    ∃ x,lo ≤ x ∧ x ≤ hi ∧ e.covers ⟨x,y⟩ = true := by
  by_cases point : e.start = e.finish
  · exact meets_iff_of_point ordered point
  · by_cases slope : e.start.y = e.finish.y
    · exact meets_iff_of_level ordered point slope
    · exact meets_iff_of_slope ordered slope

end Segment

end

end GlobeBins

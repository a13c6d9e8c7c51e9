import GlobeBins.Proofs.Geometry.Winding

namespace GlobeBins

section

variable {K : Type} [Field K] [LinearOrder K] [IsStrictOrderedRing K] [FloorSemiring K]
  {p q : Point K} {x x' y lo hi : K} {b : Box K} {ps : List (Point K)} {r : Ring K}
  {e : Segment K} {g : Polygon K} {gs : List (Polygon K)}

namespace Box

structure Within (b : Box K) (p : Point K) : Prop where
  west : b.low.x ≤ p.x
  east : p.x ≤ b.high.x
  south : b.low.y ≤ p.y
  north : p.y ≤ b.high.y

theorem cover_spec {v low high : K} (ordered : low ≤ high) :
    (cover v (low,high)).1 ≤ v ∧ v ≤ (cover v (low,high)).2 ∧ (cover v (low,high)).1 ≤ low ∧
      high ≤ (cover v (low,high)).2 := by
  unfold cover
  split_ifs with above under
  · exact ⟨ordered.trans above.le,le_refl v,le_refl low,above.le⟩
  · exact ⟨le_refl v,under.le.trans ordered,under.le,le_refl high⟩
  · exact ⟨not_lt.mp under,not_lt.mp above,le_refl low,le_refl high⟩

theorem around_within (h : b.Within q) : (b.around p).Within p ∧ (b.around p).Within q := by
  obtain ⟨west,east,low,high⟩ := @cover_spec K _ _ _ _ p.x _ _ (h.west.trans h.east)
  obtain ⟨south,north,under,above⟩ := @cover_spec K _ _ _ _ p.y _ _ (h.south.trans h.north)
  exact ⟨⟨west,east,south,north⟩,
    ⟨low.trans h.west,h.east.trans high,under.trans h.south,h.north.trans above⟩⟩

theorem foldl_around_within (h : b.Within q) :
    ∀ p ∈ q::ps,(ps.foldl around b).Within p := by
  induction ps generalizing b q with
  | nil => simpa using h
  | cons p ps ih =>
    obtain ⟨new,old⟩ := @around_within K _ _ _ _ p q b h
    intro t ht
    obtain rfl | rest := List.mem_cons.mp ht
    · exact ih old t (by simp)
    · exact ih new t rest

theorem ofPoints?_within (h : ofPoints? ps = some b) (hp : p ∈ ps) : b.Within p := by
  match ps with
  | q::ps =>
    obtain rfl := Option.some.inj h
    exact foldl_around_within ⟨le_refl _,le_refl _,le_refl _,le_refl _⟩ p hp

/-- With its ends an edge lies in a box. -/
theorem within_of_covers (start : b.Within e.start) (finish : b.Within e.finish)
    (covers : e.covers p = true) : b.Within p := by
  obtain ⟨_,across,height⟩ := Segment.covers_iff.mp covers
  have horizontal : b.low.x ≤ p.x ∧ p.x ≤ b.high.x := (between_iff.mp across).elim
    (fun h => ⟨start.west.trans h.1,h.2.trans finish.east⟩)
    (fun h => ⟨finish.west.trans h.1,h.2.trans start.east⟩)
  have vertical : b.low.y ≤ p.y ∧ p.y ≤ b.high.y := (between_iff.mp height).elim
    (fun h => ⟨start.south.trans h.1,h.2.trans finish.north⟩)
    (fun h => ⟨finish.south.trans h.1,h.2.trans start.north⟩)
  exact ⟨horizontal.1,horizontal.2,vertical.1,vertical.2⟩

theorem ofSegment_level (ordered : lo ≤ hi) :
    ofSegment ⟨⟨lo,y⟩,⟨hi,y⟩⟩ = ⟨⟨lo,y⟩,⟨hi,y⟩⟩ := by
  unfold ofSegment
  simp only [lt_irrefl,if_false]
  split_ifs with wide
  · rfl
  · rw [le_antisymm ordered (not_lt.mp wide)]

/-- A box with a point of the segment in it is not apart from it. -/
theorem apart_eq_false (west : lo ≤ x) (east : x ≤ hi)
    (within : ∀ b,ofPoints? ps = some b → b.Within ⟨x,y⟩) :
    apart (ofPoints? ps) (ofSegment ⟨⟨lo,y⟩,⟨hi,y⟩⟩) = false := by
  rw [ofSegment_level (west.trans east)]
  cases box : ofPoints? ps with
  | none => rfl
  | some b =>
    have h := within b box
    simp only [apart,disjoint,Bool.or_eq_false_iff,decide_eq_false_iff_not,not_lt]
    exact ⟨⟨⟨west.trans h.east,h.north⟩,h.west.trans east⟩,h.south⟩

end Box

namespace Ring

/-- A closed ring has all points within its box outside. -/
theorem within_of_position (closed : Closed r) (inner : position r p ≠ .outside)
    (within : ∀ q ∈ r,b.Within q) : b.Within p := by
  refine ⟨?_,?_,?_,?_⟩ <;> refine not_lt.mp fun beyond => inner (position_beyond closed ?_)
  · exact .inl fun q hq => beyond.trans_le (within q hq).west
  · exact .inr (.inl fun q hq => (within q hq).east.trans_lt beyond)
  · exact .inr (.inr (.inl fun q hq => beyond.trans_le (within q hq).south))
  · exact .inr (.inr (.inr fun q hq => (within q hq).north.trans_lt beyond))

/-- The box around a ring hides no edge from a segment. -/
theorem meets_level_iff (ordered : lo ≤ hi) : meets r ⟨⟨lo,y⟩,⟨hi,y⟩⟩ = true ↔
    ∃ x,lo ≤ x ∧ x ≤ hi ∧ ∃ e ∈ edges r,e.covers ⟨x,y⟩ = true := by
  simp only [meets,Bool.and_eq_true,Bool.not_eq_true',List.any_eq_true,Segment.meets_iff ordered]
  constructor
  · intro h
    obtain ⟨_,e,he,x,west,east,covers⟩ := h
    exact ⟨x,west,east,e,he,covers⟩
  · intro h
    obtain ⟨x,west,east,e,he,covers⟩ := h
    refine ⟨Box.apart_eq_false west east fun b box => ?_,e,he,x,west,east,covers⟩
    obtain ⟨start,finish⟩ := mem_edges he
    exact Box.within_of_covers (Box.ofPoints?_within box start) (Box.ofPoints?_within box finish)
      covers

end Ring

namespace Polygon

def rings (g : Polygon K) : List (Ring K) := g.outer::g.holes

/-- The point is on an edge of one of the rings. -/
def Touches (g : Polygon K) (p : Point K) : Prop :=
  ∃ r ∈ g.rings,∃ e ∈ Ring.edges r,e.covers p = true

theorem holePosition_inside {hs : List (Ring K)} (h : holePosition p hs = .inside) :
    ∀ r ∈ hs,Ring.position r p = .outside := by
  induction hs with
  | nil => simp
  | cons r hs ih =>
    rw [holePosition] at h
    split at h
    next outside => exact List.forall_mem_cons.mpr ⟨outside,ih h⟩
    next => cases h
    next => cases h

theorem holePosition_outside {hs : List (Ring K)} (h : holePosition p hs = .outside) :
    ∃ r ∈ hs,Ring.position r p = .inside := by
  induction hs with
  | nil => cases h
  | cons r hs ih =>
    rw [holePosition] at h
    split at h
    next =>
      obtain ⟨s,hs,inside⟩ := ih h
      exact ⟨s,by simp [hs],inside⟩
    next => cases h
    next inside => exact ⟨r,by simp,inside⟩

theorem holePosition_boundary {hs : List (Ring K)} (h : holePosition p hs = .boundary) :
    ∃ r ∈ hs,Ring.position r p = .boundary := by
  induction hs with
  | nil => cases h
  | cons r hs ih =>
    rw [holePosition] at h
    split at h
    next =>
      obtain ⟨s,hs,boundary⟩ := ih h
      exact ⟨s,by simp [hs],boundary⟩
    next boundary => exact ⟨r,by simp,boundary⟩
    next => cases h

theorem outer_of_position (h : g.position p ≠ .outside) : Ring.position g.outer p ≠ .outside := by
  intro outside
  rw [position,outside] at h
  exact h rfl

/-- A point on the boundary is on an edge, or all of a ring. -/
theorem position_boundary (h : g.position p = .boundary) : g.Touches p ∨ [p] ∈ g.rings := by
  obtain ⟨r,hr,boundary⟩ : ∃ r ∈ g.rings,Ring.position r p = .boundary := by
    rw [position] at h
    split at h
    · obtain ⟨r,hr,boundary⟩ := holePosition_boundary h
      exact ⟨r,by simp [rings,hr],boundary⟩
    · exact ⟨g.outer,by simp [rings],h⟩
  rcases Ring.position_boundary boundary with touched | rfl
  · exact .inl ⟨r,hr,touched⟩
  · exact .inr hr

/-- If a point is inside, a level way from it that touches no edge ends inside too, or at a hole of
one point. -/
theorem position_ne_outside (inside : g.position ⟨x,y⟩ = .inside)
    (same : ∀ r ∈ g.rings,Ring.position r ⟨x',y⟩ = .inside ↔ Ring.position r ⟨x,y⟩ = .inside) :
    g.position ⟨x',y⟩ ≠ .outside := by
  rw [position] at inside
  split at inside
  next outer =>
    rw [position,(same g.outer (by simp [rings])).mpr outer]
    intro outside
    obtain ⟨r,hr,hole⟩ := holePosition_outside outside
    have here := (same r (by simp [rings,hr])).mp hole
    rw [holePosition_inside inside r hr] at here
    cases here
  next other => exact absurd inside other

/-- The polygon has a point of the segment from `lo` to `hi` inside or on an edge, or one of its ends
is all of a ring. -/
def Reached (g : Polygon K) (lo hi x y : K) : Prop :=
  g.position ⟨x,y⟩ = .inside ∨ g.Touches ⟨x,y⟩ ∨
    (x = lo ∨ x = hi) ∧ g.position ⟨x,y⟩ = .boundary ∧ [⟨x,y⟩] ∈ g.rings

theorem meets_touches (ordered : lo ≤ hi) :
    (g.rings.any fun r => Ring.meets r ⟨⟨lo,y⟩,⟨hi,y⟩⟩) = true ↔
      ∃ x,lo ≤ x ∧ x ≤ hi ∧ g.Touches ⟨x,y⟩ := by
  simp only [List.any_eq_true,Ring.meets_level_iff ordered]
  constructor
  · intro h
    obtain ⟨r,hr,x,west,east,touched⟩ := h
    exact ⟨x,west,east,r,hr,touched⟩
  · intro h
    obtain ⟨x,west,east,r,hr,touched⟩ := h
    exact ⟨r,hr,x,west,east,touched⟩

theorem reached_of_position (side : x = lo ∨ x = hi) (h : g.position ⟨x,y⟩ ≠ .outside) :
    g.Reached lo hi x y := by
  cases position : g.position ⟨x,y⟩ with
  | inside => exact .inl position
  | boundary =>
    rcases position_boundary position with touched | single
    · exact .inr (.inl touched)
    · exact .inr (.inr ⟨side,position,single⟩)
  | outside => exact absurd position h

/-- A polygon meets a level segment exactly if it reaches a point of it. -/
theorem meets_iff (ordered : lo ≤ hi) : g.meets ⟨⟨lo,y⟩,⟨hi,y⟩⟩ = true ↔
    ∃ x,lo ≤ x ∧ x ≤ hi ∧ g.Reached lo hi x y := by
  have edges : g.meets ⟨⟨lo,y⟩,⟨hi,y⟩⟩ = ((g.rings.any fun r => Ring.meets r ⟨⟨lo,y⟩,⟨hi,y⟩⟩) ||
    g.position ⟨lo,y⟩ ≠ .outside || g.position ⟨hi,y⟩ ≠ .outside) := rfl
  rw [edges,Bool.or_eq_true,Bool.or_eq_true,meets_touches ordered,decide_eq_true_eq,
    decide_eq_true_eq]
  constructor
  · intro h
    obtain (⟨x,west,east,touched⟩ | west) | east := h
    · exact ⟨x,west,east,.inr (.inl touched)⟩
    · exact ⟨lo,le_refl lo,ordered,reached_of_position (.inl rfl) west⟩
    · exact ⟨hi,ordered,le_refl hi,reached_of_position (.inr rfl) east⟩
  · intro h
    obtain ⟨x,west,east,inside | touched | ⟨side,boundary,_⟩⟩ := h
    · by_cases touched : ∃ x,lo ≤ x ∧ x ≤ hi ∧ g.Touches ⟨x,y⟩
      · exact .inl (.inl touched)
      · -- nothing is touched up to the west end, so that is not outside
        refine .inl (.inr (position_ne_outside inside fun r hr => ?_))
        refine Ring.position_shift west fun e he x' west' east' covers => touched ?_
        exact ⟨x',west',east'.trans east,r,hr,e,he,covers⟩
    · exact .inl (.inl ⟨x,west,east,touched⟩)
    · have inner : g.position ⟨x,y⟩ ≠ .outside := by simp [boundary]
      obtain rfl | rfl := side
      · exact .inl (.inr inner)
      · exact .inr inner

/-- What polygons reach lies in the box around their outer rings, if holes lie in their outer rings. -/
theorem within_of_reached (closed : ∀ g ∈ gs,Ring.Closed g.outer)
    (holes : ∀ g ∈ gs,∀ h ∈ g.holes,∀ q ∈ h,Ring.position g.outer q ≠ .outside)
    (box : box? gs = some b) (hg : g ∈ gs) (h : g.Reached lo hi x y) : b.Within ⟨x,y⟩ := by
  have outer : ∀ q ∈ g.outer,b.Within q := fun q hq =>
    Box.ofPoints?_within box (List.mem_flatMap.mpr ⟨g,hg,hq⟩)
  have inner {q : Point K} (h : Ring.position g.outer q ≠ .outside) : b.Within q :=
    Ring.within_of_position (closed g hg) h outer
  obtain inside | ⟨r,hr,e,he,covers⟩ | ⟨_,boundary,_⟩ := h
  · exact inner (outer_of_position (by simp [inside]))
  · have points : ∀ q ∈ r,b.Within q := by
      obtain rfl | hole := List.mem_cons.mp hr
      · exact outer
      · exact fun q hq => inner (holes g hg r hole q hq)
    obtain ⟨start,finish⟩ := Ring.mem_edges he
    exact Box.within_of_covers (points _ start) (points _ finish) covers
  · exact inner (outer_of_position (by simp [boundary]))

/-- A point is inside or the segment around it meets a polygon, exactly if polygons reach a point of
the segment. -/
theorem reach_iff (closed : ∀ g ∈ gs,Ring.Closed g.outer)
    (holes : ∀ g ∈ gs,∀ h ∈ g.holes,∀ q ∈ h,Ring.position g.outer q ≠ .outside)
    (west : lo ≤ x) (east : x ≤ hi) :
    (anyContains gs ⟨x,y⟩ || anyMeets gs ⟨⟨lo,y⟩,⟨hi,y⟩⟩) = true ↔
      ∃ x,lo ≤ x ∧ x ≤ hi ∧ ∃ g ∈ gs,g.Reached lo hi x y := by
  simp only [anyContains,anyMeets,Bool.or_eq_true,Bool.and_eq_true,Bool.not_eq_true',
    List.any_eq_true,decide_eq_true_eq,meets_iff (west.trans east)]
  constructor
  · intro h
    obtain ⟨g,hg,inside⟩ | ⟨_,g,hg,x',west',east',reached⟩ := h
    · exact ⟨x,west,east,g,hg,.inl inside⟩
    · exact ⟨x',west',east',g,hg,reached⟩
  · intro h
    obtain ⟨x',west',east',g,hg,reached⟩ := h
    exact .inr ⟨Box.apart_eq_false west' east' fun b box =>
      within_of_reached closed holes box hg reached,g,hg,x',west',east',reached⟩

end Polygon

end

end GlobeBins

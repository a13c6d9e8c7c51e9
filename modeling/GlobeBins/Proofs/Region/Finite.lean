import GlobeBins.Proofs.Region.Membership

namespace GlobeBins

namespace Box

variable {v : Binary64} {r : Binary64 × Binary64}

def FiniteRange (r : Binary64 × Binary64) : Prop := r.1.isFinite = true ∧ r.2.isFinite = true

/-- A range stays in order. -/
theorem cover_ordered (order : ¬r.2 < r.1) (v : Binary64) :
    ¬(cover v r).2 < (cover v r).1 := by
  rw [Binary64.less_iff] at order
  unfold cover
  split_ifs with above below <;> rw [Binary64.less_iff]
  · rw [Binary64.less_iff] at above
    intro h
    exact order ⟨above.1,h.2.1,above.2.2.trans h.2.2⟩
  · exact fun h => above (Binary64.less_iff.mpr h)
  · exact order

/-- An infinity makes a range infinite, and nothing else makes a finite range so. -/
theorem cover_finite (order : ¬r.2 < r.1) :
    FiniteRange (cover v r) ↔ FiniteRange r ∧ ¬v.IsInfinite := by
  unfold cover
  split_ifs with above below
  · obtain ⟨number,own,lt⟩ := Binary64.less_iff.mp above
    constructor
    · intro h
      obtain ⟨low,high⟩ := h
      have ordered := Binary64.key_le_of_not_less (Binary64.not_isNaN low) number order
      exact ⟨⟨low,Binary64.finite_between low high ordered lt.le⟩,
        Binary64.not_infinite_of_finite high⟩
    · exact fun h => ⟨h.1.1,Binary64.finite_of_not_infinite own h.2⟩
  · obtain ⟨own,number,lt⟩ := Binary64.less_iff.mp below
    constructor
    · intro h
      obtain ⟨low,high⟩ := h
      have ordered := Binary64.key_le_of_not_less number (Binary64.not_isNaN high) order
      exact ⟨⟨Binary64.finite_between low high lt.le ordered,high⟩,
        Binary64.not_infinite_of_finite low⟩
    · exact fun h => ⟨Binary64.finite_of_not_infinite own h.2,h.1.2⟩
  · refine ⟨fun h => ⟨h,fun infinite => ?_⟩,fun h => h.1⟩
    have number : v.isNaN = false := by
      rw [Binary64.isNaN,infinite,decide_eq_false_iff_not]
      exact Nat.lt_irrefl _
    have low := Binary64.key_le_of_not_less (Binary64.not_isNaN h.1) number below
    have high := Binary64.key_le_of_not_less number (Binary64.not_isNaN h.2) above
    exact Binary64.not_infinite_of_finite (Binary64.finite_between h.1 h.2 low high) infinite

theorem foldl_cover_finite (order : ¬r.2 < r.1) (vs : List Binary64) :
    FiniteRange (vs.foldl (fun r v => cover v r) r) ↔
      FiniteRange r ∧ ∀ v ∈ vs,¬v.IsInfinite := by
  induction vs generalizing r with
  | nil => simp
  | cons v vs ih =>
    rw [List.foldl_cons,ih (cover_ordered order v),cover_finite order,List.forall_mem_cons,and_assoc]

theorem foldl_around (b : Box Binary64) (ps : List (Point Binary64)) :
    ((ps.foldl around b).low.x,(ps.foldl around b).high.x) =
        (ps.map Point.x).foldl (fun r v => cover v r) (b.low.x,b.high.x) ∧
      ((ps.foldl around b).low.y,(ps.foldl around b).high.y) =
        (ps.map Point.y).foldl (fun r v => cover v r) (b.low.y,b.high.y) := by
  induction ps generalizing b with
  | nil => exact ⟨rfl,rfl⟩
  | cons p ps ih => exact ih (b.around p)

theorem all_finite (b : Box Binary64) :
    [b.low.x,b.low.y,b.high.x,b.high.y].all Coordinate.isFinite = true ↔
      FiniteRange (b.low.x,b.high.x) ∧ FiniteRange (b.low.y,b.high.y) := by
  simp only [List.all_cons,List.all_nil,Bool.and_true,Bool.and_eq_true,FiniteRange]
  exact ⟨fun h => ⟨⟨h.1,h.2.2.1⟩,h.2.1,h.2.2.2⟩,fun h => ⟨h.1.1,h.2.1,h.1.2,h.2.2⟩⟩

end Box

namespace Region

/-- Points that the box around them tells nothing wrong about. -/
inductive Bounded : List (Point Binary64) → Prop
  | mk {p : Point Binary64} {ps : List (Point Binary64)}
    (first : p.x.isFinite = true ∧ p.y.isFinite = true)
    (rest : ∀ q ∈ ps,¬q.x.IsInfinite ∧ ¬q.y.IsInfinite) : Bounded (p::ps)

theorem bounded_iff {p : Point Binary64} {ps : List (Point Binary64)} :
    Bounded (p::ps) ↔ (p.x.isFinite = true ∧ p.y.isFinite = true) ∧
      ∀ q ∈ ps,¬q.x.IsInfinite ∧ ¬q.y.IsInfinite := by
  constructor
  · intro h
    cases h with
    | mk first rest => exact ⟨first,rest⟩
  · exact fun h => .mk h.1 h.2

/-- The box is finite just if the points are bounded. -/
theorem box_finite {points : List (Point Binary64)} {e : Box Binary64}
    (box : Box.ofPoints? points = some e) :
    [e.low.x,e.low.y,e.high.x,e.high.y].all Coordinate.isFinite = true ↔ Bounded points := by
  cases points with
  | nil => cases box
  | cons p ps =>
    cases box
    have one (v : Binary64) : ¬v < v := fun h => absurd (Binary64.less_iff.mp h).2.2 (lt_irrefl _)
    obtain ⟨x,y⟩ := Box.foldl_around ⟨p,p⟩ ps
    have finitex := Box.foldl_cover_finite (r := (p.x,p.x)) (one p.x) (ps.map Point.x)
    have finitey := Box.foldl_cover_finite (r := (p.y,p.y)) (one p.y) (ps.map Point.y)
    rw [← x] at finitex
    rw [← y] at finitey
    rw [Box.all_finite,finitex,finitey,bounded_iff,and_and_and_comm,List.forall_mem_map,
      List.forall_mem_map,← forall₂_and]
    simp only [Box.FiniteRange,and_self]

theorem box?_eq_none {polygons : List (Polygon Binary64)} :
    Polygon.box? polygons = none ↔ polygons.flatMap Polygon.outer = [] := by
  unfold Polygon.box? Box.ofPoints?
  cases polygons.flatMap Polygon.outer <;> simp

/-- The outer rings alone decide what becomes of polygons. -/
theorem ofPolygons_bounded (g : Grid) (s : RegionSetting) (polygons : List (Polygon Binary64)) :
    (Bounded (polygons.flatMap Polygon.outer) →
      ∃ r,ofPolygons g s polygons = .ok r ∧ r.polygons = polygons) ∧
    (ofPolygons g s polygons = .error (.region s.name .empty) ↔
      polygons.flatMap Polygon.outer = []) ∧
    (ofPolygons g s polygons = .error (.region s.name .notFinite) ↔
      polygons.flatMap Polygon.outer ≠ [] ∧ ¬Bounded (polygons.flatMap Polygon.outer)) := by
  rw [ne_eq,← box?_eq_none]
  unfold ofPolygons
  cases box : Polygon.box? polygons with
  | none =>
    rw [box?_eq_none.mp box]
    refine ⟨fun h => ?_,by simp,by simp⟩
    cases h
  | some e =>
    rw [← box_finite box]
    cases finite : [e.low.x,e.low.y,e.high.x,e.high.y].all Coordinate.isFinite <;> simp [finite]

/-- Which settings make a region, and what is wrong with the others. Only the outer rings count. -/
theorem ofSetting_bounded (g : Grid) (s : RegionSetting) :
    (∀ r,ofSetting g s = .ok r → Wkt.parse? s.wkt = some (.area r.polygons) ∧
      Bounded (r.polygons.flatMap Polygon.outer)) ∧
    ∀ polygons,Wkt.parse? s.wkt = some (.area polygons) →
      (Bounded (polygons.flatMap Polygon.outer) →
        ∃ r,ofSetting g s = .ok r ∧ r.polygons = polygons) ∧
      (ofSetting g s = .error (.region s.name .empty) ↔ polygons.flatMap Polygon.outer = []) ∧
      (ofSetting g s = .error (.region s.name .notFinite) ↔
        polygons.flatMap Polygon.outer ≠ [] ∧ ¬Bounded (polygons.flatMap Polygon.outer)) := by
  constructor
  · intro r made
    obtain ⟨polygons,parsed,made⟩ := ofSetting_eq_ok.mp made
    obtain ⟨e,box,finite,rfl⟩ := ofPolygons_eq_ok.mp made
    exact ⟨parsed,(box_finite box).mp finite⟩
  · intro polygons parsed
    have answer : ofSetting g s = ofPolygons g s polygons := by
      unfold ofSetting
      rw [parsed]
    rw [answer]
    exact ofPolygons_bounded g s polygons

/-- A frame is made; with an infinite corner outside it is not. -/
theorem ofSetting_bounded_frame :
    (∃ r,ofSetting threes ⟨frame.name,frame.wkt⟩ = .ok r ∧ r.polygons = frame.polygons) ∧
      ofSetting threes ⟨"torn","POLYGON((0 0,1e999 0,8 8,0 0))"⟩ =
        .error (.region "torn" .notFinite) := by
  have parsed : Wkt.parse? frame.wkt = some (.area frame.polygons) := by decide +kernel
  have torn : Wkt.parse? "POLYGON((0 0,1e999 0,8 8,0 0))" = some (.area
      [⟨[⟨0,0⟩,⟨Binary64.infinity,0⟩,⟨8,8⟩,⟨0,0⟩],[]⟩]) := by decide +kernel
  obtain ⟨makes,_,_⟩ := (ofSetting_bounded threes ⟨frame.name,frame.wkt⟩).2 _ parsed
  obtain ⟨_,_,refuses⟩ :=
    (ofSetting_bounded threes ⟨"torn","POLYGON((0 0,1e999 0,8 8,0 0))"⟩).2 _ torn
  constructor
  · apply makes
    refine .mk (by decide +kernel) ?_
    unfold Binary64.IsInfinite
    decide +kernel
  · rw [refuses]
    refine ⟨by decide,fun bounded => ?_⟩
    cases bounded with
    | mk _ rest => exact (rest ⟨Binary64.infinity,0⟩ (by simp)).1 rfl

def torn : Region Binary64 where
  name := "torn"
  wkt := "POLYGON((0 0,10 0,10 10,0 10,0 0),(1e999 5,2 2,2 8))"
  polygons := [⟨[⟨0,0⟩,⟨10,0⟩,⟨10,10⟩,⟨0,10⟩,⟨0,0⟩],
    [[⟨Binary64.infinity,5⟩,⟨2,2⟩,⟨2,8⟩,⟨Binary64.infinity,5⟩]]⟩]
  envelope := ⟨⟨0,0⟩,⟨10,10⟩⟩
  buffer := 120

def blurred : Region Binary64 where
  name := "blurred"
  wkt := "POLYGON((0 0,10 0,-nan 10,0 10,0 0))"
  polygons := [⟨[⟨0,0⟩,⟨10,0⟩,⟨Binary64.nan,10⟩,⟨0,10⟩,⟨0,0⟩],[]⟩]
  envelope := ⟨⟨0,0⟩,⟨10,10⟩⟩
  buffer := 120

/-- Regions with an infinity in a hole, and with a corner that is no number. -/
theorem torn_made : ofSetting threes ⟨torn.name,torn.wkt⟩ = .ok torn ∧
    (∃ g ∈ torn.polygons,∃ hole ∈ g.holes,∃ p ∈ hole,p.x.isFinite = false) ∧
    ofSetting threes ⟨blurred.name,blurred.wkt⟩ = .ok blurred ∧
    ∃ g ∈ blurred.polygons,∃ p ∈ g.outer,p.x.isFinite = false := by
  decide +kernel

end Region

end GlobeBins

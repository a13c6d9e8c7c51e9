import GlobeBins.Proofs.Grid.Exact
import GlobeBins.Proofs.Job.Passes
import GlobeBins.Proofs.Region.Membership

namespace GlobeBins

namespace Region

section

variable {K : Type} [Field K] [LinearOrder K] [IsStrictOrderedRing K] [FloorSemiring K] {g : Grid}
  {r : Region K} {rs : List (Region K)} {n : Nat} {lat lon south north x : K}

theorem le_maximum (a b : K) : a ≤ Coordinate.maximum a b ∧ b ≤ Coordinate.maximum a b := by
  unfold Coordinate.maximum
  split
  next h => exact ⟨h.elim id fun no => absurd (le_refl a) no,le_refl b⟩
  next h => exact ⟨le_refl a,(not_le.mp fun le => h (.inl le)).le⟩

/-- Over exact numbers too, a ring that is closed ends where it begins. -/
theorem ofRings_closed (rings : List (Ring K)) : Ring.Closed (Wkt.ofRings rings).outer := by
  match rings with
  | [] => rfl
  | []::_ => rfl
  | (p::ps)::_ =>
    change (Ring.close (p::ps)).head? = (Ring.close (p::ps)).getLast?
    rw [Ring.close]
    split
    next same =>
      have ends : p = (p::ps).getLast (by simp) := Segment.equal_iff.mp same
      rw [List.getLast?_eq_some_getLast (List.cons_ne_nil p ps),← ends]
      rfl
    next =>
      rw [List.getLast?_concat]
      rfl

/-- A region as it is made from rings of exact numbers, none of whose holes leaves its outer ring. -/
structure Drawn (g : Grid) (r : Region K) : Prop where
  made : ofPolygons g ⟨r.name,r.wkt⟩ r.polygons = .ok r
  rings : ∀ p ∈ r.polygons,∃ rings,p = Wkt.ofRings rings
  holes : ∀ p ∈ r.polygons,∀ h ∈ p.holes,∀ q ∈ h,Ring.position p.outer q ≠ .outside

theorem Drawn.closed (drawn : Drawn g r) : ∀ p ∈ r.polygons,Ring.Closed p.outer := by
  intro p hp
  obtain ⟨rings,rfl⟩ := drawn.rings p hp
  exact ofRings_closed rings

/-- The envelope is the box around the polygons, and the buffer belongs to its latitudes. -/
theorem Drawn.parts (drawn : Drawn g r) : Polygon.box? r.polygons = some r.envelope ∧
    r.buffer = bufferOf g r.envelope.low.y r.envelope.high.y := by
  obtain ⟨e,box,_,parts⟩ := ofPolygons_eq_ok.mp drawn.made
  have envelope : r.envelope = e := congrArg Region.envelope parts
  have buffer : r.buffer = bufferOf g e.low.y e.high.y := congrArg Region.buffer parts
  rw [envelope]
  exact ⟨box,buffer⟩

/-- The buffer of a range of latitudes is no less than the cells of any row in it. -/
theorem cellWidth_le_bufferOf (rounded : g.Rounded) (above : south ≤ lat) (below : lat ≤ north) :
    g.cellWidth (g.rowAt lat) ≤ bufferOf g south north := by
  obtain ⟨southern,northern⟩ := le_maximum (g.cellWidth (g.rowAt south) : K)
    (g.cellWidth (g.rowAt north))
  have first : g.rowAt north ≤ g.rowAt lat := Grid.rowAt_anti below
  have last : g.rowAt lat ≤ g.rowAt south := Grid.rowAt_anti above
  rcases rounded.least first last (Grid.rowAt_lt south) with wide | wide
  · exact (Grid.cellWidth_anti wide).trans northern
  · exact (Grid.cellWidth_anti wide).trans southern

/-- What the polygons have in reach of a position makes the region contain it. -/
theorem contains_of_reached (drawn : Drawn g r) (west : lon-r.buffer ≤ x) (east : x ≤ lon+r.buffer)
    {p : Polygon K} (hp : p ∈ r.polygons)
    (reached : p.Reached (lon-r.buffer) (lon+r.buffer) x lat) : r.contains lat lon = true := by
  obtain ⟨box,_⟩ := drawn.parts
  have within := Polygon.within_of_reached drawn.closed drawn.holes box hp reached
  have low : lon-r.buffer ≤ lon := by linarith
  have high : lon ≤ lon+r.buffer := by linarith
  have meets := (Polygon.reach_iff drawn.closed drawn.holes low high).mpr
    ⟨x,west,east,p,hp,reached⟩
  have near : r.nearEnvelope lat lon = true := by
    have westmost : r.envelope.low.x-r.buffer ≤ lon := by linarith [within.west]
    have eastmost : lon ≤ r.envelope.high.x+r.buffer := by linarith [within.east]
    simp only [nearEnvelope,Bool.not_eq_true',Bool.or_eq_false_iff,decide_eq_false_iff_not,not_lt]
    exact ⟨⟨⟨within.south,within.north⟩,westmost⟩,eastmost⟩
  rw [contains,near,Bool.true_and]
  exact meets

/-- A region that takes a bin's cell gets one copy of the bin. -/
theorem fanOut_copy {α : Type} {b : TemporalBin α} (few : rs.length < 2^31) (at_n : rs[n]? = some r)
    (takes : r.takes g b.index = true) :
    (fanOut g rs b).filter (fun c => c.key.region = Int32.ofNat n) = [.of (Int32.ofNat n) b] := by
  have copy : RegionBin.of (Int32.ofNat n) b ∈ fanOut g rs b := mem_fanOut.mpr ⟨n,r,at_n,takes,rfl⟩
  have order := fanOut_pairwise (g := g) (b := b) few
  obtain ⟨before,after,split⟩ := List.append_of_mem copy
  rw [split,List.pairwise_append,List.pairwise_cons] at order
  obtain ⟨_,⟨above,_⟩,below⟩ := order
  have low : before.filter (fun c => c.key.region = Int32.ofNat n) = [] := by
    simp only [List.filter_eq_nil_iff,decide_eq_true_eq]
    intro c hc same
    have lt : c.key.region < Int32.ofNat n := below c hc _ List.mem_cons_self
    exact Int32.ne_of_lt lt same
  have high : after.filter (fun c => c.key.region = Int32.ofNat n) = [] := by
    simp only [List.filter_eq_nil_iff,decide_eq_true_eq]
    intro c hc same
    have lt : Int32.ofNat n < c.key.region := above c hc
    exact Int32.ne_of_lt lt same.symm
  have own : (RegionBin.of (Int32.ofNat n) b).key.region = Int32.ofNat n := rfl
  rw [split,List.filter_append,low,List.filter_cons_of_pos (by simp [own]),high,List.nil_append]

/-- The buffer of a region is no less than the cells of the rows whose middle is between its
latitudes, and a bin of such a row whose cell has a point of a polygon, on the parallel of its centre,
is copied to the region once, as it is. -/
theorem overlapping_copied {α : Type} (rounded : g.Rounded) (few : rs.length < 2^31)
    (at_n : rs[n]? = some r) (drawn : Drawn g r) (b : TemporalBin α)
    (center : g.center b.index = (lat,lon)) (above : r.latitudes.1 ≤ lat)
    (below : lat ≤ r.latitudes.2) :
    g.cellWidth (g.rowOf b.index) ≤ r.buffer ∧
      ∀ x,|x-lon| ≤ g.cellWidth (g.rowOf b.index)/2 →
        (∃ p ∈ r.polygons,p.position ⟨x,lat⟩ = .inside ∨ p.Touches ⟨x,lat⟩) →
        (fanOut g rs b).filter (fun c => c.key.region = Int32.ofNat n) =
          [⟨⟨Int32.ofNat n,b.index⟩,b⟩] := by
  have row : g.rowAt lat = g.rowOf b.index := by
    have middle : (g.center b.index : K × K).1 = g.latitude (g.rowOf b.index) :=
      Grid.center_latitude b.index
    rw [center] at middle
    rw [show lat = g.latitude (g.rowOf b.index) from middle]
    exact Grid.rowAt_latitude (Grid.rowOf_lt b.index)
  have wide : g.cellWidth (g.rowOf b.index) ≤ r.buffer := by
    rw [drawn.parts.2,← row]
    exact cellWidth_le_bufferOf rounded above below
  refine ⟨wide,?_⟩
  intro x close covered
  obtain ⟨p,hp,point⟩ := covered
  have some : (0 : K) < g.cellWidth (g.rowOf b.index) := Grid.cellWidth_pos _
  obtain ⟨west,east⟩ := abs_le.mp close
  have reached : p.Reached (lon-r.buffer) (lon+r.buffer) x lat :=
    point.elim .inl fun touches => .inr (.inl touches)
  apply fanOut_copy few at_n
  rw [takes,center]
  apply contains_of_reached drawn _ _ hp reached
  · linarith
  · linarith

end

/-- Four rows with one, three, four and two cells. -/
def stepped : Grid := .ofColumns #[1,3,4,2] (by decide) (by decide)

/-- A frame around a hole, as wide as a cell of the second row is in part. -/
def window : Region ℚ where
  name := "window"
  wkt := "POLYGON((-10 -70,10 -70,10 70,-10 70),(-5 -60,5 -60,5 60,-5 60))"
  polygons := [Wkt.ofRings [[⟨-10,-70⟩,⟨10,-70⟩,⟨10,70⟩,⟨-10,70⟩],[⟨-5,-60⟩,⟨5,-60⟩,⟨5,60⟩,⟨-5,60⟩]]]
  envelope := ⟨⟨-10,-70⟩,⟨10,70⟩⟩
  buffer := 360

/-- The centre of the cell is in the hole, but the cell reaches the frame. -/
theorem overlapping_copied_window : stepped.Rounded ∧ Drawn stepped window ∧
    stepped.center 2 = ((45/2,0) : ℚ × ℚ) ∧ window.latitudes.1 ≤ 45/2 ∧ 45/2 ≤ window.latitudes.2 ∧
    |(-7 : ℚ)-0| ≤ stepped.cellWidth (stepped.rowOf 2)/2 ∧
    (∃ p ∈ window.polygons,p.position ⟨-7,45/2⟩ = .inside ∨ p.Touches ⟨-7,45/2⟩) ∧
    (fanOut stepped [window] ⟨2,9,3,["x"]⟩).filter (fun c => c.key.region = Int32.ofNat 0) =
      [⟨⟨0,2⟩,⟨2,9,3,["x"]⟩⟩] := by
  have north : ∀ row' < 2,∀ row ≤ row',stepped.columnsAt row ≤ stepped.columnsAt row' := by decide
  have south : ∀ row' < 4,∀ row ≤ row',2 ≤ row → stepped.columnsAt row' ≤ stepped.columnsAt row := by
    decide
  have rows : stepped.rows = 4 := rfl
  have rounded : stepped.Rounded :=
    ⟨fun row row' le low => north row' (by omega) row le,
      fun row row' high le low => south row' (by omega) row le (by omega)⟩
  have drawn : Drawn stepped window :=
    ⟨by decide +kernel,by simp [window],by decide +kernel⟩
  have center : stepped.center 2 = ((45/2,0) : ℚ × ℚ) := by decide +kernel
  have above : window.latitudes.1 ≤ 45/2 := by decide +kernel
  have below : (45/2 : ℚ) ≤ window.latitudes.2 := by decide +kernel
  have close : |(-7 : ℚ)-0| ≤ stepped.cellWidth (stepped.rowOf 2)/2 := by decide +kernel
  have point : ∃ p ∈ window.polygons,p.position ⟨-7,45/2⟩ = .inside ∨ p.Touches ⟨-7,45/2⟩ :=
    ⟨_,List.mem_cons_self,.inl (by decide +kernel)⟩
  have first : [window][0]? = some window := rfl
  have copied := overlapping_copied rounded (by decide) first drawn
    (⟨2,9,3,["x"]⟩ : TemporalBin String) center above below
  exact ⟨rounded,drawn,center,above,below,close,point,copied.2 (-7) close point⟩

def needle : Region ℚ where
  name := "needle"
  wkt := "POLYGON((10 45))"
  polygons := [Wkt.ofRings [[⟨10,45⟩]]]
  envelope := ⟨⟨10,45⟩,⟨10,45⟩⟩
  buffer := 120

/-- A ring of one point has no edge, so the cell with that point in it is not copied. -/
theorem needle_not_copied : threes.Rounded ∧ Drawn threes needle ∧
    threes.center 1 = ((45,0) : ℚ × ℚ) ∧ needle.latitudes.1 ≤ 45 ∧ 45 ≤ needle.latitudes.2 ∧
    |(10 : ℚ)-0| ≤ threes.cellWidth (threes.rowOf 1)/2 ∧
    (∃ p ∈ needle.polygons,∃ ring ∈ p.rings,⟨10,45⟩ ∈ ring) ∧
    fanOut threes [needle] ⟨1,9,3,["x"]⟩ = [] := by
  have even : ∀ row < 2,∀ row' < 2,threes.columnsAt row ≤ threes.columnsAt row' := by decide
  have rows : threes.rows = 2 := rfl
  have rounded : threes.Rounded :=
    ⟨fun row row' _ _ => even row (by omega) row' (by omega),
      fun row row' _ _ _ => even row' (by omega) row (by omega)⟩
  refine ⟨rounded,⟨by decide +kernel,by simp [needle],by decide +kernel⟩,by decide +kernel,
    by decide +kernel,by decide +kernel,by decide +kernel,?_,by decide +kernel⟩
  exact ⟨_,List.mem_singleton_self _,_,List.mem_cons_self,List.mem_singleton_self _⟩

end Region

end GlobeBins

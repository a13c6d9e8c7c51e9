import GlobeBins.Proofs.Geometry.Doubles
import GlobeBins.Proofs.Checked
import GlobeBins.Region

namespace GlobeBins

namespace Wkt

section

variable {α : Type}

/-- What a parser returns for some tokens. -/
def Yields (item : Parse α) (x : α) : Prop := ∃ ts rest,item ts = some (x,rest)

theorem separatedFrom_yields {item : Parse α} {fuel : Nat} {ts rest : List Token} {xs : List α}
    (h : separatedFrom item fuel ts = some (xs,rest)) : ∀ x ∈ xs,Yields item x := by
  induction fuel generalizing ts xs rest with
  | zero => cases h
  | succ fuel ih =>
    simp only [separatedFrom,Option.bind_eq_bind,Option.bind_eq_some_iff] at h
    obtain ⟨⟨x,ts'⟩,first,h⟩ := h
    split at h
    next =>
      obtain ⟨⟨xs',ts''⟩,others,h⟩ := Option.bind_eq_some_iff.mp h
      cases h
      exact List.forall_mem_cons.mpr ⟨⟨_,_,first⟩,ih others⟩
    next =>
      cases h
      exact List.forall_mem_cons.mpr ⟨⟨_,_,first⟩,by simp⟩

theorem enclosed_yields {empty x : α} {body : Parse α} (h : Yields (enclosed empty body) x) :
    x = empty ∨ Yields body x := by
  obtain ⟨ts,rest,h⟩ := h
  unfold enclosed at h
  split at h
  next =>
    obtain ⟨⟨y,ts'⟩,inner,h⟩ := Option.bind_eq_some_iff.mp h
    obtain ⟨_,_,h⟩ := Option.bind_eq_some_iff.mp h
    cases h
    exact .inr ⟨_,_,inner⟩
  next =>
    split at h
    · cases h
      exact .inl rfl
    · cases h
  next => cases h

end

theorem polygon_yields {n : Nat} {g : Polygon Binary64} (h : Yields (polygon n) g) :
    ∃ rings,g = ofRings rings := by
  obtain ⟨ts,rest,h⟩ := h
  obtain ⟨⟨rings,ts'⟩,_,h⟩ := Option.bind_eq_some_iff.mp h
  cases h
  exact ⟨rings,rfl⟩

theorem plain_yields {α : Type} {p : Parse α} {g : Geometry} (h : Yields (plain p) g) :
    g = .other := by
  obtain ⟨ts,rest,h⟩ := h
  obtain ⟨_,_,h⟩ := Option.bind_eq_some_iff.mp h
  cases h
  rfl

/-- Areas are made of rings that were closed. -/
theorem geometry_yields {fuel : Nat} {gs : List (Polygon Binary64)}
    (h : Yields (geometryFrom fuel) (.area gs)) : ∀ g ∈ gs,∃ rings,g = ofRings rings := by
  have never {α : Type} {p : Parse α} {ts rest : List Token} :
      plain p ts ≠ some (.area gs,rest) := fun h => nomatch plain_yields ⟨ts,rest,h⟩
  obtain ⟨ts,rest,h⟩ := h
  unfold geometryFrom at h
  split at h
  next => cases h
  next =>
    obtain ⟨⟨kind,given⟩,_,h⟩ := Option.bind_eq_some_iff.mp h
    obtain ⟨⟨n,ts'⟩,_,h⟩ := Option.bind_eq_some_iff.mp h
    cases kind with
    | polygon =>
      obtain ⟨⟨g,ts''⟩,one,h⟩ := Option.bind_eq_some_iff.mp h
      cases h
      simpa using polygon_yields ⟨_,_,one⟩
    | polygons =>
      obtain ⟨⟨gs',ts''⟩,many,h⟩ := Option.bind_eq_some_iff.mp h
      cases h
      rcases enclosed_yields ⟨_,_,many⟩ with rfl | ⟨_,_,items⟩
      · simp
      · exact fun g hg => polygon_yields (separatedFrom_yields items g hg)
    | point => exact absurd h never
    | line => exact absurd h never
    | points => exact absurd h never
    | lines => exact absurd h never
    | collection => exact absurd h never
  next => cases h

theorem parse?_area {s : String} {gs : List (Polygon Binary64)} (h : parse? s = some (.area gs)) :
    ∀ g ∈ gs,∃ rings,g = ofRings rings := by
  obtain ⟨⟨geometry,rest⟩,parsed,rfl⟩ := Option.map_eq_some_iff.mp h
  exact geometry_yields ⟨_,_,parsed⟩

end Wkt

/-- The outer ring of an area is closed, also as a ring of numbers. -/
theorem Wkt.outer_closed (rings : List (Ring Binary64)) :
    Ring.Closed ((ofRings rings).outer.map (Point.map Binary64.toReal)) := by
  match rings with
  | [] => rfl
  | outer::_ => exact Ring.close_closed outer

namespace Region

/-- What a region is made with. -/
structure Made (r : Region Binary64) : Prop where
  closed : ∀ g ∈ r.polygons,Ring.Closed (g.outer.map (Point.map Binary64.toReal))
  box : Polygon.box? r.polygons = some r.envelope
  finite : [r.envelope.low.x,r.envelope.low.y,r.envelope.high.x,r.envelope.high.y].all
    Binary64.isFinite = true
  step : Binary64.Step r.buffer

theorem bufferOf_step (g : Grid) (south north : Binary64) :
    Binary64.Step (bufferOf g south north) := by
  have width (row : Nat) : Binary64.Step (g.cellWidth row) :=
    Binary64.turn_step (g.columnsAt_pos row)
  unfold bufferOf Coordinate.maximum
  split_ifs
  · exact width _
  · exact width _

/-- Polygons make a region if the box around them is finite. -/
theorem ofPolygons_eq_ok {κ : Type} [Coordinate κ] {g : Grid} {s : RegionSetting}
    {polygons : List (Polygon κ)} {r : Region κ} : ofPolygons g s polygons = .ok r ↔
      ∃ e,Polygon.box? polygons = some e ∧
        [e.low.x,e.low.y,e.high.x,e.high.y].all Coordinate.isFinite = true ∧
        r = ⟨s.name,s.wkt,polygons,e,bufferOf g e.low.y e.high.y⟩ := by
  unfold ofPolygons
  cases Polygon.box? polygons with
  | none => simp
  | some e =>
    simp only [Option.some.injEq,exists_eq_left']
    split_ifs with finite <;> simp [finite,eq_comm]

theorem ofSetting_eq_ok {g : Grid} {s : RegionSetting} {r : Region Binary64} :
    ofSetting g s = .ok r ↔
      ∃ polygons,Wkt.parse? s.wkt = some (.area polygons) ∧ ofPolygons g s polygons = .ok r := by
  unfold ofSetting
  split
  next none => simp [none]
  next other => simp [other]
  next polygons parsed => simp [parsed]

theorem ofSetting_made {g : Grid} {s : RegionSetting} {r : Region Binary64}
    (h : ofSetting g s = .ok r) : Made r := by
  obtain ⟨polygons,parsed,h⟩ := ofSetting_eq_ok.mp h
  obtain ⟨e,box,finite,rfl⟩ := ofPolygons_eq_ok.mp h
  refine ⟨fun g hg => ?_,box,finite,bufferOf_step g _ _⟩
  obtain ⟨rings,rfl⟩ := Wkt.parse?_area parsed g hg
  exact Wkt.outer_closed rings

/-- Finite coordinates, and holes that do not leave their outer rings. -/
structure Regular (r : Region Binary64) : Prop where
  finite : ∀ g ∈ r.polygons,∀ ring ∈ g.rings,∀ p ∈ ring,p.x.isFinite = true ∧ p.y.isFinite = true
  holes : ∀ g ∈ r.polygons,∀ hole ∈ g.holes,∀ q ∈ hole,Ring.position g.outer q ≠ .outside

/-- The points that membership looks at: the position, the ends of its reach and the rings. -/
def points (r : Region Binary64) (lat lon : Binary64) : List (Point Binary64) :=
  ⟨lon,lat⟩::(r.reach lat lon).start::(r.reach lat lon).finish::
    r.polygons.flatMap fun g => g.rings.flatten

section

variable {r : Region Binary64} {lat lon : Binary64}

theorem mem_points {g : Polygon Binary64} {ring : Ring Binary64} (hg : g ∈ r.polygons)
    (hring : ring ∈ g.rings) : ∀ p ∈ ring,p ∈ r.points lat lon := by
  intro p hp
  have among : p ∈ r.polygons.flatMap fun g => g.rings.flatten :=
    List.mem_flatMap.mpr ⟨g,hg,List.mem_flatten.mpr ⟨ring,hring,hp⟩⟩
  simp [points,among]

theorem points_finite (made : Made r) (regular : Regular r) (hlat : lat.isFinite = true)
    (hlon : lon.isFinite = true) :
    ∀ p ∈ r.points lat lon,p.x.isFinite = true ∧ p.y.isFinite = true := by
  obtain ⟨west,_⟩ := Binary64.sub_step hlon made.step
  obtain ⟨east,_⟩ := Binary64.add_step hlon made.step
  intro p hp
  simp only [points,List.mem_cons] at hp
  obtain rfl | rfl | rfl | ring := hp
  · exact ⟨hlon,hlat⟩
  · exact ⟨west,hlat⟩
  · exact ⟨east,hlat⟩
  · obtain ⟨g,hg,inside⟩ := List.mem_flatMap.mp ring
    obtain ⟨ring,hring,hp⟩ := List.mem_flatten.mp inside
    exact regular.finite g hg ring hring p hp

theorem nearEnvelope_iff (made : Made r) (hlat : lat.isFinite = true) (hlon : lon.isFinite = true) :
    r.nearEnvelope lat lon = true ↔ r.envelope.low.y ≤ lat ∧ lat ≤ r.envelope.high.y ∧
      r.envelope.low.x-r.buffer ≤ lon ∧ lon ≤ r.envelope.high.x+r.buffer := by
  have finite := made.finite
  simp only [List.all_cons,List.all_nil,Bool.and_true,Bool.and_eq_true] at finite
  obtain ⟨westmost,south,eastmost,north⟩ := finite
  obtain ⟨west,_⟩ := Binary64.sub_step westmost made.step
  obtain ⟨east,_⟩ := Binary64.add_step eastmost made.step
  have flip {x y : Binary64} (hx : x.isFinite = true) (hy : y.isFinite = true) :
      ¬x < y ↔ y ≤ x := by
    rw [Binary64.lt_iff hx hy,Binary64.le_iff hy hx,not_lt]
  simp only [nearEnvelope,Bool.not_eq_true',Bool.or_eq_false_iff,decide_eq_false_iff_not,
    flip hlat south,flip north hlat,flip hlon west,flip east hlon,and_assoc]

end

/-- A position belongs to a region exactly if it is in the buffered envelope and some longitude
within one buffer of it, on its parallel, is inside a polygon, on an edge of a ring, or, for the two
longitudes at the ends, all of a ring that bounds a polygon. -/
theorem contains_iff {g : Grid} {s : RegionSetting} {r : Region Binary64} {lat lon : Binary64}
    (set : ofSetting g s = .ok r) (regular : Regular r) (hlat : lat.isFinite = true)
    (hlon : lon.isFinite = true) (exact : Orientation.ExactOn (r.points lat lon)) :
    r.contains lat lon = true ↔
      (r.envelope.low.y ≤ lat ∧ lat ≤ r.envelope.high.y) ∧
      (r.envelope.low.x-r.buffer ≤ lon ∧ lon ≤ r.envelope.high.x+r.buffer) ∧
      ∃ x : ℝ,(lon-r.buffer).toReal ≤ x ∧ x ≤ (lon+r.buffer).toReal ∧
        ∃ p ∈ r.polygons.map (Polygon.map Binary64.toReal),
          p.Reached (lon-r.buffer).toReal (lon+r.buffer).toReal x lat.toReal := by
  have made := ofSetting_made set
  have F := Faithful.toReal exact (points_finite made regular hlat hlon)
  obtain ⟨west,below⟩ := Binary64.sub_step hlon made.step
  obtain ⟨east,above⟩ := Binary64.add_step hlon made.step
  have here : (⟨lon,lat⟩ : Point Binary64) ∈ r.points lat lon := by simp [points]
  have start : (⟨lon-r.buffer,lat⟩ : Point Binary64) ∈ r.points lat lon := by simp [points,reach]
  have finish : (⟨lon+r.buffer,lat⟩ : Point Binary64) ∈ r.points lat lon := by simp [points,reach]
  have outers : ∀ g ∈ r.polygons,∀ q ∈ g.outer,q ∈ r.points lat lon := fun g hg =>
    mem_points hg (by simp [Polygon.rings])
  have holes : ∀ g ∈ r.polygons,∀ h ∈ g.holes,∀ q ∈ h,q ∈ r.points lat lon := fun g hg h hh =>
    mem_points hg (by simp [Polygon.rings,hh])
  have closed : ∀ p ∈ r.polygons.map (Polygon.map Binary64.toReal),Ring.Closed p.outer := by
    intro p hp
    obtain ⟨g,hg,rfl⟩ := List.mem_map.mp hp
    exact made.closed g hg
  have within : ∀ p ∈ r.polygons.map (Polygon.map Binary64.toReal),∀ h ∈ p.holes,∀ q ∈ h,
      Ring.position p.outer q ≠ .outside := by
    intro p hp h hh q hq
    obtain ⟨g,hg,rfl⟩ := List.mem_map.mp hp
    obtain ⟨hole,hhole,rfl⟩ := List.mem_map.mp hh
    obtain ⟨t,ht,rfl⟩ := List.mem_map.mp hq
    exact F.ringPosition (holes g hg hole hhole t ht) (outers g hg) ▸
      regular.holes g hg hole hhole t ht
  have reached := @Polygon.reach_iff ℝ _ _ _ _ lon.toReal lat.toReal _ _ _ closed within
    (Binary64.toReal_le.mpr ((Binary64.le_iff west hlon).mp below))
    (Binary64.toReal_le.mpr ((Binary64.le_iff hlon east).mp above))
  have contains := F.anyContains here outers holes
  have meets := F.anyMeets start finish outers holes
  rw [Region.contains,Bool.and_eq_true,nearEnvelope_iff made hlat hlon,reach,← contains,← meets]
  exact (and_congr_right' reached).trans (by simp only [and_assoc])

/-- Two rows of three cells. -/
def threes : Grid := .ofColumns #[3,3] (by decide) (by decide)

def frame : Region Binary64 where
  name := "frame"
  wkt := "POLYGON((0 0,8 0,8 8,0 8,0 0),(2 2,6 2,6 6,2 6,2 2))"
  polygons :=
    [⟨[⟨0,0⟩,⟨8,0⟩,⟨8,8⟩,⟨0,8⟩,⟨0,0⟩],[[⟨2,2⟩,⟨6,2⟩,⟨6,6⟩,⟨2,6⟩,⟨2,2⟩]]⟩]
  envelope := ⟨⟨0,0⟩,⟨8,8⟩⟩
  buffer := 120

/-- The middle of the hole is near enough to the frame. -/
theorem contains_iff_frame :
    (frame.envelope.low.y ≤ 4 ∧ 4 ≤ frame.envelope.high.y) ∧
      (frame.envelope.low.x-frame.buffer ≤ 4 ∧ 4 ≤ frame.envelope.high.x+frame.buffer) ∧
      ∃ x : ℝ,(4-frame.buffer).toReal ≤ x ∧ x ≤ (4+frame.buffer).toReal ∧
        ∃ p ∈ frame.polygons.map (Polygon.map Binary64.toReal),
          p.Reached (4-frame.buffer).toReal (4+frame.buffer).toReal x (4 : Binary64).toReal := by
  have set : ofSetting threes ⟨frame.name,frame.wkt⟩ = .ok frame := by decide +kernel
  have regular : Regular frame := ⟨by decide +kernel,by decide +kernel⟩
  have exact : Orientation.ExactOn (frame.points 4 4) :=
    Orientation.exactOn_of_moderate (by decide +kernel)
  exact (contains_iff set regular (by decide +kernel) (by decide +kernel) exact).mp
    (by decide +kernel)

def pin : Region Binary64 where
  name := "pin"
  wkt := "POLYGON((10 10))"
  polygons := [⟨[⟨10,10⟩],[]⟩]
  envelope := ⟨⟨10,10⟩,⟨10,10⟩⟩
  buffer := 120

/-- The only point of a ring belongs to no region by itself, since there is no edge. -/
theorem pin_not_contained : ofSetting threes ⟨pin.name,pin.wkt⟩ = .ok pin ∧ Regular pin ∧
    Orientation.ExactOn (pin.points 10 10) ∧ pin.contains 10 10 = false ∧
    (pin.envelope.low.y ≤ 10 ∧ 10 ≤ pin.envelope.high.y) ∧
    (pin.envelope.low.x-pin.buffer ≤ 10 ∧ 10 ≤ pin.envelope.high.x+pin.buffer) ∧
    ∃ x : ℝ,(10-pin.buffer).toReal ≤ x ∧ x ≤ (10+pin.buffer).toReal ∧
      ∃ p ∈ pin.polygons.map (Polygon.map Binary64.toReal),∃ ring ∈ p.rings,
        ⟨x,(10 : Binary64).toReal⟩ ∈ ring := by
  refine ⟨by decide +kernel,⟨by decide +kernel,by decide +kernel⟩,
    Orientation.exactOn_of_moderate (by decide +kernel),by decide +kernel,by decide +kernel,
    by decide +kernel,(10 : Binary64).toReal,?_,?_,_,List.mem_map_of_mem (List.mem_singleton_self _),
    _,List.mem_cons_self,List.mem_singleton_self _⟩
  · exact Binary64.toReal_le.mpr (by decide +kernel)
  · exact Binary64.toReal_le.mpr (by decide +kernel)

end Region

end GlobeBins

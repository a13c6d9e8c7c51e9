import GlobeBins.Bin
import GlobeBins.Geometry.Wkt
import GlobeBins.Grid

namespace GlobeBins

structure RegionSetting where
  name : String
  wkt : String
  deriving DecidableEq

/-- A named area. A bin belongs to it if its centre lies in one of the polygons, or so close to one
in longitude that the cell may overlap it. -/
structure Region (κ : Type) where
  name : String
  wkt : String
  polygons : List (Polygon κ)
  /-- Around the outer rings. -/
  envelope : Box κ
  /-- Longitude by which a centre may miss the polygons. -/
  buffer : κ
  deriving DecidableEq

namespace Region

section

variable {κ : Type} [Coordinate κ]

/-- The wider one of the cells at the two ends of a latitude range. -/
def bufferOf (g : Grid) (south north : κ) : κ :=
  Coordinate.maximum (g.cellWidth (g.rowAt south)) (g.cellWidth (g.rowAt north))

def ofPolygons (g : Grid) (s : RegionSetting) (polygons : List (Polygon κ)) :
    Except Fault (Region κ) :=
  match Polygon.box? polygons with
  | none => .error (.region s.name .empty)
  | some e =>
    if [e.low.x,e.low.y,e.high.x,e.high.y].all Coordinate.isFinite then
      .ok ⟨s.name,s.wkt,polygons,e,bufferOf g e.low.y e.high.y⟩
    else .error (.region s.name .notFinite)

variable (r : Region κ)

/-- South and north end. -/
def latitudes : κ × κ := (r.envelope.low.y,r.envelope.high.y)

/-- Positions that a buffer to the west and to the east of the envelope covers. -/
def nearEnvelope (lat lon : κ) : Bool :=
  !(lat < r.envelope.low.y || r.envelope.high.y < lat || lon < r.envelope.low.x-r.buffer ||
    r.envelope.high.x+r.buffer < lon)

/-- Positions within one buffer to the west and to the east. -/
def reach (lat lon : κ) : Segment κ := ⟨⟨lon-r.buffer,lat⟩,⟨lon+r.buffer,lat⟩⟩

def contains (lat lon : κ) : Bool :=
  r.nearEnvelope lat lon &&
    (Polygon.anyContains r.polygons ⟨lon,lat⟩ || Polygon.anyMeets r.polygons (r.reach lat lon))

/-- From the southernmost to the northernmost latitude; none without a region. -/
def latitudeExtent? : List (Region κ) → Option (κ × κ)
  | [] => none
  | r::rs => some (rs.foldl (fun e r =>
      (Coordinate.minimum e.1 r.latitudes.1,Coordinate.maximum e.2 r.latitudes.2)) r.latitudes)

/-- One copy of a bin for each region that contains its centre, in the order of the regions. -/
def fanOut {α : Type} (g : Grid) (rs : List (Region κ)) (b : TemporalBin α) :
    List (RegionBin α) :=
  let (lat,lon) : κ × κ := g.center b.index
  rs.zipIdx.filterMap fun p =>
    if p.1.contains lat lon then some (.of (Int32.ofNat p.2) b) else none

end

def ofSetting (g : Grid) (s : RegionSetting) : Except Fault (Region Binary64) :=
  match Wkt.parse? s.wkt with
  | none => .error (.region s.name .malformedText)
  | some .other => .error (.region s.name .notPolygonal)
  | some (.area polygons) => ofPolygons g s polygons

/-- There is at least one region; the first unusable one decides. -/
def ofSettings (g : Grid) (ss : List RegionSetting) : Except Fault (List (Region Binary64)) :=
  if ss.isEmpty then .error .noRegions else ss.mapM (ofSetting g)

end Region

end GlobeBins

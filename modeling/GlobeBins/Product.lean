import GlobeBins.Bin
import GlobeBins.Fault
import GlobeBins.Files
import GlobeBins.Settings
import GlobeBins.Text.Lines

namespace GlobeBins

/-- Header of a product. -/
structure Metadata where
  job : String
  region : Int32
  name : String
  wkt : String
  period : Option Period
  rows : Nat
  features : List String
  deriving DecidableEq

inductive ProductCall where
  | start (metadata : Metadata)
  | bin (b : RegionBin Binary32) (output : List Binary32)
  | finish
  deriving DecidableEq

/-- Whatever takes the products of a job. -/
abbrev ProductSink (m : Type → Type) := ProductCall → m (Except Fault Unit)

namespace ProductCall

/-- Makes the calls in order until one fails. -/
def perform {m : Type → Type} [Monad m] (sink : ProductSink m) :
    List ProductCall → m (Except Fault Unit)
  | [] => pure (.ok ())
  | c::cs => do
    match ← sink c with
    | .ok () => perform sink cs
    | .error f => return .error f

end ProductCall

namespace Product

def header (m : Metadata) : Json.Value :=
  .object [("job_id",.text m.job),("region_index",.integer m.region.toInt),
    ("region_name",.text m.name),("region_wkt",.text m.wkt),
    ("time_range",match m.period with | some p => p.toJson | none => .null),
    ("num_rows",.integer m.rows),("feature_names",.array (m.features.map .text))]

/-- A bin with the position of its centre on a grid. -/
def record (g : Grid) (b : RegionBin Binary32) (output : List Binary32) : Json.Value :=
  let (lat,lon) := g.center b.key.bin
  .object [("bin_index",.integer b.key.bin.toInt),("lat",.double lat),("lon",.double lon),
    ("num_obs",.integer b.bin.observations.toInt),("num_passes",.integer b.bin.passes.toInt),
    ("features",.array (output.map .single))]

def isPlain (c : Char) : Bool := c.isAlphanum || c == '-' || c == '_'

/-- The index keeps names apart; in the region's name all but ASCII letters, digits, hyphens and
underscores are replaced. -/
def fileName (region : Int32) (name : String) : String :=
  String.ofList (Json.renderInt region.toInt++
    '-'::(name.toList.map fun c => if isPlain c then c else '_'))++".jsonl"

/-- One value per line. -/
def text (lines : List Json.Value) : String :=
  String.ofList (lines.flatMap fun v => v.chars++['\n'])

/-- The header, null in an empty product, and the records. -/
def ofBytes (content : Bytes) : Except Fault (Json.Value × List Json.Value) := do
  if (Text.ofBytes? content).isNone then throw (.io .invalidData)
  let values ← (Text.lines content).mapM fun line =>
    (Json.Value.parse ((Text.ofBytes? line).getD "")).mapError .json
  match values with
  | [] => return (.null,[])
  | header::records => return (header,records)

def read {m : Type → Type} [Monad m] (files : Files m) (path : String) :
    m (Except Fault (Json.Value × List Json.Value)) := do
  match ← files.read path with
  | .error f => return .error (.io f)
  | .ok content => return ofBytes content

end Product

end GlobeBins

import GlobeBins.Fault
import GlobeBins.Text.Blank
import GlobeBins.Text.Lines

namespace GlobeBins

/-- One sample per variable, in the order of the variables. -/
structure Observation where
  time : Binary64
  lat : Binary64
  lon : Binary64
  samples : List Binary32
  deriving DecidableEq

namespace Observation

/-- An observation while it is being read. -/
structure Draft where
  time : Option Binary64
  lat : Option Binary64
  lon : Option Binary64
  samples : Option (List Binary32)

def fields : List (Json.Field Draft) :=
  [.required "time" Draft.time (fun d x => {d with time := some x}) Json.Reader.double,
    .required "lat" Draft.lat (fun d x => {d with lat := some x}) Json.Reader.double,
    .required "lon" Draft.lon (fun d x => {d with lon := some x}) Json.Reader.double,
    .required "values" Draft.samples (fun d x => {d with samples := some x})
      (Json.Reader.list Json.Reader.single)]

def reader : Json.Reader Observation := fun t => do
  let d ← Json.readRecord fields false ⟨none,none,none,none⟩ t
  match d with
  | ⟨some time,some lat,some lon,some samples⟩ => .ok ⟨time,lat,lon,samples⟩
  | _ => .error .malformed

def toJson (o : Observation) : Json.Value :=
  .object [("time",.double o.time),("lat",.double o.lat),("lon",.double o.lon),
    ("values",.array (o.samples.map .single))]

/-- One line: nothing if it is blank. -/
def ofLine? (partition : String) (number : Nat) (line : Bytes) :
    Option (Except Fault Observation) :=
  match Text.ofBytes? line with
  | none => some (.error (.partition partition .invalidData))
  | some s =>
    if Text.blank s then none
    else some ((Json.decode reader s).mapError (.observation partition number))

/-- All lines of a partition. Lines count from 1, blank ones too. -/
def ofContent (partition : String) (content : Bytes) : List (Except Fault Observation) :=
  ((Text.lines content).zipIdx 1).filterMap fun p => ofLine? partition p.2 p.1

end Observation

end GlobeBins

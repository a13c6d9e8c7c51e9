import GlobeBins.Fault

namespace GlobeBins

/-- Which samples carry no data. What is not finite never does. -/
inductive Mask where
  | value (x : Binary32)
  | values (xs : List Binary32)
  | atLeast (least : Binary32)
  | atMost (greatest : Binary32)
  | between (least greatest : Binary32)
  deriving DecidableEq

namespace Mask

/-- The numbers that a mask is made of. -/
def bounds : Mask → List Binary32
  | value x => [x]
  | values xs => xs
  | atLeast x => [x]
  | atMost x => [x]
  | between x y => [x,y]

def violation? (m : Mask) : Option Violation :=
  if m.bounds.all Binary32.isFinite then
    match m with
    | between least greatest => if greatest ≤ least then some (.maskRange least greatest) else none
    | _ => none
  else some .maskNotFinite

/-- Samples that the mask marks as missing. -/
def hides (m : Mask) (x : Binary32) : Bool :=
  !x.isFinite ||
    match m with
    | value y => x.equal y
    | values ys => ys.any x.equal
    | atLeast least => x < least
    | atMost greatest => greatest < x
    | between least greatest => x < least || greatest < x

/-- Without a mask only samples that are not finite are missing. -/
def hidden (m : Option Mask) (x : Binary32) : Bool :=
  match m with
  | some m => m.hides x
  | none => !x.isFinite

def names : List String :=
  ["missing_value","missing_values","valid_min","valid_max","valid_range"]

def reader : Json.Reader Mask :=
  .variant names (fun _ => none) fun name =>
    if name = "missing_value" then fun t => value <$> Json.Reader.single t
    else if name = "missing_values" then fun t => values <$> Json.Reader.list Json.Reader.single t
    else if name = "valid_min" then fun t => atLeast <$> Json.Reader.single t
    else if name = "valid_max" then fun t => atMost <$> Json.Reader.single t
    else fun t => (fun p => between p.1 p.2) <$> Json.Reader.pair Json.Reader.single t

/-- A mask is an object with the name of its kind. -/
def toJson : Mask → Json.Value
  | value x => .object [("missing_value",.single x)]
  | values xs => .object [("missing_values",.array (xs.map .single))]
  | atLeast x => .object [("valid_min",.single x)]
  | atMost x => .object [("valid_max",.single x)]
  | between x y => .object [("valid_range",.array [.single x,.single y])]

end Mask

/-- The sample slots of an observation, in order. -/
structure Variable where
  name : String
  mask : Option Mask
  deriving DecidableEq

namespace Variable

/-- Position of the first variable of a name. -/
def indexOf? (vs : List Variable) (name : String) : Option Nat :=
  vs.findIdx? (·.name == name)

/-- Samples are refused if there are fewer of them than variables, or one that counts is hidden. -/
def refuses (vs : List Variable) (samples : List Binary32) : Bool :=
  samples.length < vs.length || (vs.zip samples).any fun p => Mask.hidden p.1.mask p.2

end Variable

end GlobeBins

import GlobeBins.Json.Value

namespace GlobeBins

/-- Something worth counting. -/
inductive Event where
  | partition (observations skipped bins : UInt64)
  | bins (stage : String) (count : UInt64)
  | failed
  deriving DecidableEq

/-- Totals by label, in the order of the labels. -/
abbrev Samples := List (String × UInt64)

/-- Totals wrap round like the words they are. -/
def Samples.add (label : String) (n : UInt64) : Samples → Samples
  | [] => [(label,n)]
  | s::ss =>
    if label = s.1 then (label,s.2+n)::ss
    else if label < s.1 then (label,n)::s::ss
    else s::Samples.add label n ss

/-- Counters of what jobs did. -/
structure Metrics where
  observations : Samples
  bins : Samples
  partitionsFailed : UInt64
  /-- Number of partitions whose time was taken. -/
  timings : Nat

namespace Metrics

def zero : Metrics := ⟨[],[],0,0⟩

/-- No fewer than zero observations are accepted. -/
def accepted (observations skipped : UInt64) : UInt64 :=
  if skipped ≤ observations then observations-skipped else 0

def count (m : Metrics) : Event → Metrics
  | .partition observations skipped bins =>
    ⟨(m.observations.add "accepted" (accepted observations skipped)).add "skipped" skipped,
      m.bins.add "spatial" bins,m.partitionsFailed,m.timings+1⟩
  | .bins stage n => ⟨m.observations,m.bins.add stage n,m.partitionsFailed,m.timings⟩
  | .failed => ⟨m.observations,m.bins,m.partitionsFailed+1,m.timings⟩

def countAll (m : Metrics) (events : List Event) : Metrics := events.foldl count m

/-- Values are doubles; large ones are padded with zeros behind the digits that tell them apart. -/
def renderValue (n : UInt64) : String :=
  if n = 0 then "0"
  else
    let (digits,exponent) := Format.double.shortest (Format.double.ofNat n.toNat)
    String.ofList (Nat.toDigits 10 digits++Json.zeros exponent.toNat)

def escapeChar (c : Char) : List Char :=
  if c = '"' ∨ c = '\\' then ['\\',c] else if c = '\n' then ['\\','n'] else [c]

def escape (s : String) : String := String.ofList (s.toList.flatMap escapeChar)

def describe (name help : String) : List String :=
  ["# HELP "++name++" "++help,"# TYPE "++name++" counter"]

/-- A family with labels needs samples to be there at all. -/
def renderFamily (name help label : String) (samples : Samples) : List String :=
  if samples.isEmpty then []
  else describe name help++samples.map fun s =>
    name++"\x7b"++label++"=\""++escape s.1++"\"\x7d "++renderValue s.2

def render (m : Metrics) : List String :=
  renderFamily "bins" "The number of bins produced by each stage" "stage" m.bins++
  renderFamily "observations" "The number of observations read, by outcome" "outcome"
    m.observations++
  describe "partitions_failed" "The number of input partitions that could not be processed"++
  ["partitions_failed "++renderValue m.partitionsFailed]

end Metrics

end GlobeBins

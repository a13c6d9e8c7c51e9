import GlobeBins.Statistic.Arithmetic
import GlobeBins.Statistic.Parameters

namespace GlobeBins

/-- Sum of the samples and, after a merge, the number of observations that went into it. -/
structure Total where
  name : String
  source : Nat
  deriving DecidableEq

namespace Total

def addSample (x : Binary32) : List Binary32 → List Binary32
  | s::rest => (s+x)::rest
  | v => v

def addCell (cell : List Binary32) (count : Int) : List Binary32 → List Binary32
  | s::n::rest =>
    match cell with
    | a::_ => (s+a)::(n+Binary32.ofInt count)::rest
    | [] => s::n::rest
  | v => v

def ofParameters (name : String) (source : Nat) (p : Parameters) : Except Fault Total := do
  p.checkKnown []
  .ok ⟨name,source⟩

end Total

end GlobeBins

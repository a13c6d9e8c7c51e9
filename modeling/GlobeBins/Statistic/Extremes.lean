import GlobeBins.Statistic.Arithmetic
import GlobeBins.Statistic.Parameters

namespace GlobeBins

/-- Least and greatest sample. Both start at the infinity that every sample replaces. -/
structure Extremes where
  name : String
  source : Nat
  fill : Binary32
  deriving DecidableEq

namespace Extremes

def neutral : List Binary32 := [Binary32.infinity,Binary32.negInfinity]

def widen (least greatest : Binary32) : List Binary32 → List Binary32
  | a::b::rest => a.min least::b.max greatest::rest
  | v => v

def addCell (cell : List Binary32) (v : List Binary32) : List Binary32 :=
  match cell with
  | a::b::_ => widen a b v
  | _ => v

def output (fill : Binary32) : List Binary32 → List Binary32
  | a::b::_ => if a ≤ b then [a,b] else [fill,fill]
  | _ => [fill,fill]

theorem output_length (fill : Binary32) (v : List Binary32) : (output fill v).length = 2 := by
  unfold output
  split
  · split <;> rfl
  · rfl

def ofParameters (name : String) (source : Nat) (p : Parameters) : Except Fault Extremes := do
  p.checkKnown ["fill_value"]
  let fill ← p.getD Parameters.single? "fill_value" Binary32.nan
  .ok ⟨name,source,fill⟩

end Extremes

end GlobeBins

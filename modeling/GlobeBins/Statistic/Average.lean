import GlobeBins.Statistic.Arithmetic
import GlobeBins.Statistic.Parameters

namespace GlobeBins

/-- Weighted mean and standard deviation. The weight of a cell is its count to a power. -/
structure Average where
  name : String
  source : Nat
  /-- Power of the observation count that a cell is weighted by; 0 weighs all cells alike. -/
  weight : Binary64
  fill : Binary32
  deriving DecidableEq

namespace Average

section

variable {α : Type} [Arithmetic α]

/-- Vectors are the sums of samples and of squares, and after a merge the sum of weights. -/
def addSample (x : α) : List α → List α
  | s::q::rest => (s+x)::(q+x*x)::rest
  | v => v

def divideByCount (count : Int) : List α → List α
  | s::q::rest =>
    let n : α := Arithmetic.ofInt count
    if 0 < count then s/n::q/n::rest else s::q::rest
  | v => v

def addCell (w : α) (cell : List α) : List α → List α
  | s::q::sum::rest =>
    match cell with
    | a::b::_ => (s+a*w)::(q+b*w)::(sum+w)::rest
    | _ => s::q::sum::rest
  | v => v

/-- Mean and variance before clamping; none without weight. -/
def moments? : List α → Option (α × α)
  | s::q::sum::_ =>
    if Arithmetic.zero < sum then
      let mean := s/sum
      some (mean,q/sum-mean*mean)
    else none
  | _ => none

/-- Mean and standard deviation. -/
def output (fill : α) (v : List α) : List α :=
  match moments? v with
  | some (mean,variance) => [mean,Arithmetic.sqrt (Arithmetic.clampVariance variance)]
  | none => [fill,fill]

theorem output_length (fill : α) (v : List α) : (output fill v).length = 2 := by
  unfold output
  split <;> rfl

end

def ofParameters (name : String) (source : Nat) (p : Parameters) : Except Fault Average := do
  p.checkKnown ["weight_coeff","fill_value"]
  let weight ← p.getD Parameters.double? "weight_coeff" 0
  if weight.isFinite then
    let fill ← p.getD Parameters.single? "fill_value" Binary32.nan
    .ok ⟨name,source,weight,fill⟩
  else .error (p.fault "weight_coeff" .notFinite)

end Average

end GlobeBins

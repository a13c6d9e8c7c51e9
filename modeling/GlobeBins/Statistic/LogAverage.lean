import GlobeBins.Statistic.Arithmetic
import GlobeBins.Statistic.Parameters

namespace GlobeBins

/-- Mean of log-normally distributed samples by maximum likelihood. A cell's sums are divided by the
square root of its count, and the merged sums by the sum of those roots. -/
structure LogAverage where
  name : String
  source : Nat
  deriving DecidableEq

namespace LogAverage

section

variable {α : Type} [Arithmetic α]

def addSample (x : α) : List α → List α
  | s::q::rest =>
    let l := Arithmetic.log x
    (s+l)::(q+l*l)::rest
  | v => v

def divideByRoot (count : Int) : List α → List α
  | s::q::rest =>
    let n : α := Arithmetic.sqrt (Arithmetic.ofInt count)
    if 0 < count then s/n::q/n::rest else s::q::rest
  | v => v

def addCell (cell : List α) (count : Int) : List α → List α
  | s::q::sum::rest =>
    match cell with
    | a::b::_ => (s+a)::(q+b)::(sum+Arithmetic.sqrt (Arithmetic.ofInt (max count 0)))::rest
    | _ => s::q::sum::rest
  | v => v

/-- Mean and mean square of the logarithms; none without weight. -/
def logMoments? : List α → Option (α × α)
  | s::q::sum::_ => if Arithmetic.zero < sum then some (s/sum,q/sum) else none
  | _ => none

/-- Mean, standard deviation, median and mode of the log-normal distribution. -/
def output (fill : α) (v : List α) : List α :=
  match logMoments? v with
  | some (m,square) =>
    let variance := Arithmetic.clampVariance (square-m*m)
    let mean := Arithmetic.exp (m+Arithmetic.half*variance)
    [mean,mean*Arithmetic.sqrt (Arithmetic.exp variance-Arithmetic.ofInt 1),
      Arithmetic.exp m,Arithmetic.exp (m-variance)]
  | none => [fill,fill,fill,fill]

theorem output_length (fill : α) (v : List α) : (output fill v).length = 4 := by
  unfold output
  split <;> rfl

/-- Only positive samples have a logarithm. -/
def accepts (source : Nat) (samples : List α) : Bool :=
  match samples[source]? with
  | some x => Arithmetic.zero < x
  | none => false

end

def ofParameters (name : String) (source : Nat) (p : Parameters) : Except Fault LogAverage := do
  p.checkKnown []
  .ok ⟨name,source⟩

end LogAverage

end GlobeBins

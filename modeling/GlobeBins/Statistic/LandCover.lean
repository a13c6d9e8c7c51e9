import GlobeBins.Statistic.Arithmetic
import GlobeBins.Statistic.Parameters

namespace GlobeBins

/-- Histogram of classes, and the class most often seen; of classes seen equally often the lowest
one. -/
structure LandCover where
  name : String
  source : Nat
  classes : Nat
  classes_range : 1 ≤ classes ∧ classes ≤ 256
  deriving DecidableEq

namespace LandCover

/-- Samples are rounded to classes, a half away from zero. -/
def classOf? (classes : Nat) (x : Binary32) : Option Nat :=
  match x.nearestInt? with
  | some n => if 0 ≤ n ∧ n < classes then some n.toNat else none
  | none => none

def addSample (classes : Nat) (x : Binary32) (v : List Binary32) : List Binary32 :=
  match classOf? classes x with
  | some c => v.modify c (·+1)
  | none => v

/-- Adds counts class by class. -/
def addCell (cell : List Binary32) : List Binary32 → List Binary32
  | [] => []
  | t::ts =>
    match cell with
    | [] => t::ts
    | c::cs => (t+c)::addCell cs ts

/-- Position of the first greatest count; `best` is the greatest one so far, at `position`. -/
def majorityFrom (best : Binary32) (position next : Nat) : List Binary32 → Nat
  | [] => position
  | c::cs =>
    if best < c then majorityFrom c next (next+1) cs else majorityFrom best position (next+1) cs

def majority : List Binary32 → Nat
  | [] => 0
  | c::cs => majorityFrom c 0 1 cs

def total (counts : List Binary32) : Binary32 := counts.foldl (·+·) 0

/-- The majority class, then the fraction of each class. -/
def output (fill : Binary32) (counts : List Binary32) : List Binary32 :=
  let sum := total counts
  if sum ≤ 0 then fill::counts.map fun _ => 0
  else Binary32.ofNat (majority counts)::counts.map (·/sum)

theorem output_length (fill : Binary32) (counts : List Binary32) :
    (output fill counts).length = counts.length+1 := by
  simp only [output]
  split <;> simp

theorem addCell_length (cell v : List Binary32) : (addCell cell v).length = v.length := by
  induction v generalizing cell with
  | nil => simp [addCell]
  | cons t ts ih => cases cell <;> simp [addCell,ih]

def ofParameters (name : String) (source : Nat) (p : Parameters) : Except Fault LandCover := do
  p.checkKnown ["num_classes"]
  let classes ← p.require Parameters.word? "num_classes"
  if h : 1 ≤ classes ∧ classes ≤ 256 then .ok ⟨name,source,classes,h⟩
  else .error (p.fault "num_classes" .classCount)

end LandCover

end GlobeBins

import GlobeBins.Calendar
import GlobeBins.Statistic.Arithmetic
import GlobeBins.Statistic.Parameters

namespace GlobeBins

/-- Earliest burned day of the year with its confidence. Of two burns on the same day the first one
stays. -/
structure BurnedDay where
  name : String
  source : Nat
  confidence : Option Nat
  first : Nat
  last : Nat
  window : 1 ≤ first ∧ first ≤ last ∧ last ≤ 366
  deriving DecidableEq

namespace BurnedDay

def isBurned (b : BurnedDay) (day : Binary32) : Bool :=
  Binary32.ofNat b.first ≤ day && day ≤ Binary32.ofNat b.last

/-- A burn replaces a later burn and anything else; a negative mark replaces a greater value that is
no burn. -/
def fold (b : BurnedDay) (day confidence : Binary32) : List Binary32 → List Binary32
  | current::old::rest =>
    if b.isBurned day then
      if !b.isBurned current || day < current then day::confidence::rest else current::old::rest
    else if day < 0 && !b.isBurned current && day < current then day::0::rest
    else current::old::rest
  | v => v

/-- Burns have confidence 1 where none is observed. -/
def addSample (b : BurnedDay) (samples v : List Binary32) : List Binary32 :=
  match samples[b.source]? with
  | none => v
  | some day =>
    match b.confidence with
    | none => b.fold day 1 v
    | some i =>
      match samples[i]? with
      | some c => b.fold day c v
      | none => v

def addCell (b : BurnedDay) (cell v : List Binary32) : List Binary32 :=
  match cell with
  | day::confidence::_ => b.fold day confidence v
  | _ => v

theorem fold_length (b : BurnedDay) (day confidence : Binary32) (v : List Binary32) :
    (b.fold day confidence v).length = v.length := by
  unfold fold
  split
  · repeat' split
    all_goals rfl
  · rfl

/-- The window is a calendar month, or given by its ends. -/
def windowOf (p : Parameters) : Except Fault (Int × Int) := do
  let year ← p.get? Parameters.int32? "year"
  let month ← p.get? Parameters.byte? "month"
  match year,month with
  | some year,some month =>
    match monthWindow? year month with
    | some (first,last) => .ok (first,last)
    | none => .error (p.fault "month" .notMonth)
  | some _,none => .error (p.fault "month" .needsMonth)
  | none,some _ => .error (p.fault "year" .needsYear)
  | none,none => do
    let first ← p.getD Parameters.int32? "min_doy" 1
    let last ← p.getD Parameters.int32? "max_doy" 366
    .ok (first,last)

def ofParameters (name : String) (source : Nat) (confidence : Option Nat) (p : Parameters) :
    Except Fault BurnedDay := do
  p.checkKnown ["confidence_variable","year","month","min_doy","max_doy"]
  let (first,last) ← windowOf p
  if h : 1 ≤ first ∧ first ≤ last ∧ last ≤ 366 then
    .ok ⟨name,source,confidence,first.toNat,last.toNat,by omega⟩
  else .error (p.fault "min_doy" .window)

end BurnedDay

end GlobeBins

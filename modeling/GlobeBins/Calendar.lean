import GlobeBins.Text.Blank
import GlobeBins.Text.Numeral

namespace GlobeBins

def isLeap (year : Int) : Bool := year%4 == 0 && (year%100 ≠ 0 || year%400 == 0)

/-- Months count from 1; a number that is no month has no days. -/
def monthLength (year : Int) : Nat → Nat
  | 2 => if isLeap year then 29 else 28
  | 4 | 6 | 9 | 11 => 30
  | 1 | 3 | 5 | 7 | 8 | 10 | 12 => 31
  | _ => 0

/-- Days of the year before the month begins. -/
def daysBefore (year : Int) : Nat → Nat
  | 0 => 0
  | month+1 => daysBefore year month+monthLength year month

/-- A date of the proleptic Gregorian calendar. -/
structure Date where
  year : Int
  month : Nat
  day : Nat
  year_range : -9999 ≤ year ∧ year ≤ 9999
  day_range : 1 ≤ day ∧ day ≤ monthLength year month
  deriving DecidableEq

namespace Date

def of? (year : Int) (month day : Nat) : Option Date :=
  if h : (-9999 ≤ year ∧ year ≤ 9999) ∧ 1 ≤ day ∧ day ≤ monthLength year month then
    some ⟨year,month,day,h.1,h.2⟩
  else none

def dayOfYear (d : Date) : Nat := daysBefore d.year d.month+d.day

/-- Chronological order. -/
def isAfter (a b : Date) : Bool :=
  b.year < a.year || (a.year == b.year &&
    (b.month < a.month || (a.month == b.month && b.day < a.day)))

/-- The text before the first hyphen and the text after it. -/
def cutHyphen? (s : List Char) : Option (List Char × List Char) :=
  match s.dropWhile (· ≠ '-') with
  | _::rest => some (s.takeWhile (· ≠ '-'),rest)
  | [] => none

/-- Year, month and day as integers between hyphens, with blanks around the whole. -/
def parse? (s : String) : Option Date := do
  let (year,rest) ← cutHyphen? (Text.trimChars s.toList)
  let (month,day) ← cutHyphen? rest
  let year ← Text.integer? (-2^31) (2^31-1) year
  let month ← Text.natural? 255 month
  let day ← Text.natural? 255 day
  Date.of? year month day

end Date

/-- First and last day of the year of a month. -/
def monthWindow? (year : Int) (month : Nat) : Option (Nat × Nat) := do
  let first ← Date.of? year month 1
  let last ← Date.of? year month (monthLength year month)
  return (first.dayOfYear,last.dayOfYear)

theorem monthLength_le (year : Int) (month : Nat) : monthLength year month ≤ 31 := by
  unfold monthLength
  repeat' split
  all_goals omega

theorem monthLength_pos_iff (year : Int) (month : Nat) :
    0 < monthLength year month ↔ 1 ≤ month ∧ month ≤ 12 := by
  constructor
  · intro h
    unfold monthLength at h
    split at h <;> simp_all
  · rintro ⟨h,k⟩
    have : month = 1 ∨ month = 2 ∨ month = 3 ∨ month = 4 ∨ month = 5 ∨ month = 6 ∨ month = 7 ∨
        month = 8 ∨ month = 9 ∨ month = 10 ∨ month = 11 ∨ month = 12 := by omega
    rcases this with rfl|rfl|rfl|rfl|rfl|rfl|rfl|rfl|rfl|rfl|rfl|rfl <;>
      simp [monthLength]
    split <;> omega

end GlobeBins

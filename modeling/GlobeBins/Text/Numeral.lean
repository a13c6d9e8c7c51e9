import GlobeBins.Numeric.Binary32

namespace GlobeBins.Text

/-- Value of a digit string; other characters count as zero. -/
def digitsValue (s : List Char) : Nat :=
  s.foldl (fun n c => 10*n+(c.toNat - '0'.toNat)) 0

/-- One or more ASCII digits and nothing else. -/
def digits? (s : List Char) : Option Nat :=
  if s ≠ [] ∧ s.all Char.isDigit then some (digitsValue s) else none

def natural? (limit : Nat) (s : List Char) : Option Nat :=
  let body := match s with | '+'::r => r | r => r
  (digits? body).filter (·≤limit)

def integer? (least greatest : Int) (s : List Char) : Option Int :=
  let value := match s with
    | '-'::r => (digits? r).map fun n => -(n : Int)
    | '+'::r => (digits? r).map Int.ofNat
    | r => (digits? r).map Int.ofNat
  value.filter fun n => least ≤ n ∧ n ≤ greatest

/-- A floating numeral before rounding. -/
inductive Numeral where
  | nan
  | infinity (negative : Bool)
  | decimal (negative : Bool) (digits : Nat) (exponent : Int)
  deriving DecidableEq,Repr

namespace Numeral

def toBinary64 : Numeral → Binary64
  | nan => Binary64.nan
  | infinity negative => Binary64.ofMagnitude negative Format.double.infinity
  | decimal negative digits exponent => Binary64.ofDecimal negative digits exponent

def toBinary32 : Numeral → Binary32
  | nan => Binary32.nan
  | infinity negative => Binary32.ofMagnitude negative Format.single.infinity
  | decimal negative digits exponent => Binary32.ofDecimal negative digits exponent

/-- The power of ten after the letter e, or 0 at the end of the text. -/
def exponent? : List Char → Option Int
  | [] => some 0
  | c::r =>
    if c = 'e' ∨ c = 'E' then
      match r with
      | '-'::d => (digits? d).map fun n => -(n : Int)
      | '+'::d => (digits? d).map Int.ofNat
      | d => (digits? d).map Int.ofNat
    else none

/-- Digits with an optional point, at least one digit, and an optional exponent. -/
def decimal? (negative : Bool) (s : List Char) : Option Numeral :=
  let whole := s.takeWhile Char.isDigit
  let rest := s.dropWhile Char.isDigit
  let fraction := match rest with | '.'::r => r.takeWhile Char.isDigit | _ => []
  let rest := match rest with | '.'::r => r.dropWhile Char.isDigit | r => r
  if whole = [] ∧ fraction = [] then none
  else (exponent? rest).map fun e =>
    decimal negative (digitsValue (whole++fraction)) (e-fraction.length)

def unsigned? (negative : Bool) (s : List Char) : Option Numeral :=
  let word := s.map Char.toLower
  if word = "nan".toList then some nan
  else if word = "inf".toList ∨ word = "infinity".toList then some (infinity negative)
  else decimal? negative s

def parse? : List Char → Option Numeral
  | '-'::r => unsigned? true r
  | '+'::r => unsigned? false r
  | r => unsigned? false r

end Numeral

end GlobeBins.Text

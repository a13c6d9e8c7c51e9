import GlobeBins.Numeric.Format

namespace GlobeBins

/-- A double by its bits. Comparison is by a key of sign and magnitude; arithmetic is the machine's.
-/
structure Binary64 where
  bits : UInt64
  deriving DecidableEq,Inhabited

namespace Binary64

def ofFloat (x : Float) : Binary64 := ⟨x.toBits⟩

def toFloat (x : Binary64) : Float := Float.ofBits x.bits

def magnitude (x : Binary64) : Nat := (x.bits &&& 0x7fffffffffffffff).toNat

def isNegative (x : Binary64) : Bool := 0x8000000000000000 ≤ x.bits

def isNaN (x : Binary64) : Bool := Format.double.infinity < x.magnitude

def isFinite (x : Binary64) : Bool := x.magnitude < Format.double.infinity

/-- Orders all patterns but the NaNs; both zeros have key 0. -/
def key (x : Binary64) : Int :=
  if x.isNegative then -(x.magnitude : Int) else x.magnitude

def less (x y : Binary64) : Bool := !x.isNaN && !y.isNaN && x.key < y.key

def lessEq (x y : Binary64) : Bool := !x.isNaN && !y.isNaN && x.key ≤ y.key

/-- Numeric equality, which differs from equality of bits at zero and at NaN. -/
def equal (x y : Binary64) : Bool := !x.isNaN && !y.isNaN && x.key == y.key

instance : LT Binary64 := ⟨fun x y => x.less y = true⟩

instance : LE Binary64 := ⟨fun x y => x.lessEq y = true⟩

instance (x y : Binary64) : Decidable (x < y) := inferInstanceAs (Decidable (x.less y = true))

instance (x y : Binary64) : Decidable (x ≤ y) := inferInstanceAs (Decidable (x.lessEq y = true))

/-- Exact value of a finite double in multiples of 2 to the minus 1074. -/
def units (x : Binary64) : Int :=
  if x.isNegative then -(Format.double.units x.magnitude : Int)
  else Format.double.units x.magnitude

def ofMagnitude (negative : Bool) (magnitude : Nat) : Binary64 :=
  ⟨magnitude.toUInt64 ||| if negative then 0x8000000000000000 else 0⟩

def nan : Binary64 := ⟨0x7ff8000000000000⟩

def infinity : Binary64 := ⟨0x7ff0000000000000⟩

def negInfinity : Binary64 := ⟨0xfff0000000000000⟩

def ofNat (n : Nat) : Binary64 := ofMagnitude false (Format.double.ofNat n)

def ofInt (n : Int) : Binary64 := ofMagnitude (n < 0) (Format.double.ofNat n.natAbs)

def ofDecimal (negative : Bool) (digits : Nat) (exponent : Int) : Binary64 :=
  ofMagnitude negative (Format.double.ofDecimal digits exponent)

def half : Binary64 := ⟨0x3fe0000000000000⟩

instance (n : Nat) : OfNat Binary64 n := ⟨ofNat n⟩

instance : Add Binary64 := ⟨fun x y => ofFloat (x.toFloat+y.toFloat)⟩

instance : Sub Binary64 := ⟨fun x y => ofFloat (x.toFloat-y.toFloat)⟩

instance : Mul Binary64 := ⟨fun x y => ofFloat (x.toFloat*y.toFloat)⟩

instance : Div Binary64 := ⟨fun x y => ofFloat (x.toFloat/y.toFloat)⟩

/-- Only the sign changes, of zeros and NaNs too. -/
instance : Neg Binary64 := ⟨fun x => ⟨x.bits ^^^ 0x8000000000000000⟩⟩

def abs (x : Binary64) : Binary64 := ⟨x.bits &&& 0x7fffffffffffffff⟩

def cos (x : Binary64) : Binary64 := ofFloat x.toFloat.cos

/-- Exponent of a normal power of two. -/
def powerOfTwo? (x : Binary64) : Option Int :=
  let n := x.magnitude
  if !x.isNegative && n%2^52 = 0 && 0 < n && x.isFinite then some (n/2^52-1023 : Int) else none

/-- The integer that a finite double is. -/
def whole? (x : Binary64) : Option Int :=
  if x.isFinite && x.units%2^1074 = 0 then some (x.units/2^1074) else none

/-- A power of two to a whole exponent, if that is a normal double; it is exact. -/
def exactPower? (x y : Binary64) : Option Binary64 := do
  let exponent := (← x.powerOfTwo?)*(← y.whole?)
  if -1022 ≤ exponent ∧ exponent ≤ 1023 then
    some (ofMagnitude false ((exponent+1023).toNat*2^52))
  else none

/-- The exponents 0 and 1 and powers of two are exact, all others as the machine has them. -/
def power (x y : Binary64) : Binary64 :=
  if y.equal 0 then 1
  else if y.equal 1 then x
  else (exactPower? x y).getD (ofFloat (x.toFloat.pow y.toFloat))

/-- Integer part. Negative values and NaN give 0, and the largest 64 bit word is the limit. -/
def truncate (x : Binary64) : Nat :=
  if x.isNaN || x.isNegative then 0
  else min (Format.double.integerPart x.magnitude) 0xffffffffffffffff

theorem less_irrefl (x : Binary64) : ¬x < x := by
  show ¬x.less x = true
  simp [less]

theorem less_trans {x y z : Binary64} (h : x < y) (k : y < z) : x < z := by
  have h' : x.less y = true := h
  have k' : y.less z = true := k
  show x.less z = true
  simp only [less,Bool.and_eq_true,Bool.not_eq_true',decide_eq_true_eq] at h' k' ⊢
  exact ⟨⟨h'.1.1,k'.1.2⟩,by omega⟩

end Binary64

end GlobeBins

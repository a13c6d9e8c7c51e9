import GlobeBins.Numeric.Binary64

namespace GlobeBins

/-- A single by its bits, so that a stored NaN keeps its payload. -/
structure Binary32 where
  bits : UInt32
  deriving DecidableEq,Inhabited

namespace Binary32

def ofFloat (x : Float32) : Binary32 := ⟨x.toBits⟩

def toFloat (x : Binary32) : Float32 := Float32.ofBits x.bits

def magnitude (x : Binary32) : Nat := (x.bits &&& 0x7fffffff).toNat

def isNegative (x : Binary32) : Bool := 0x80000000 ≤ x.bits

def isNaN (x : Binary32) : Bool := Format.single.infinity < x.magnitude

def isFinite (x : Binary32) : Bool := x.magnitude < Format.single.infinity

/-- Orders all patterns but the NaNs; both zeros have key 0. -/
def key (x : Binary32) : Int :=
  if x.isNegative then -(x.magnitude : Int) else x.magnitude

def less (x y : Binary32) : Bool := !x.isNaN && !y.isNaN && x.key < y.key

def lessEq (x y : Binary32) : Bool := !x.isNaN && !y.isNaN && x.key ≤ y.key

/-- Numeric equality, which differs from equality of bits at zero and at NaN. -/
def equal (x y : Binary32) : Bool := !x.isNaN && !y.isNaN && x.key == y.key

instance : LT Binary32 := ⟨fun x y => x.less y = true⟩

instance : LE Binary32 := ⟨fun x y => x.lessEq y = true⟩

instance (x y : Binary32) : Decidable (x < y) := inferInstanceAs (Decidable (x.less y = true))

instance (x y : Binary32) : Decidable (x ≤ y) := inferInstanceAs (Decidable (x.lessEq y = true))

def ofMagnitude (negative : Bool) (magnitude : Nat) : Binary32 :=
  ⟨magnitude.toUInt32 ||| if negative then 0x80000000 else 0⟩

def nan : Binary32 := ⟨0x7fc00000⟩

def infinity : Binary32 := ⟨0x7f800000⟩

def negInfinity : Binary32 := ⟨0xff800000⟩

def half : Binary32 := ⟨0x3f000000⟩

def ofNat (n : Nat) : Binary32 := ofMagnitude false (Format.single.ofNat n)

def ofInt (n : Int) : Binary32 := ofMagnitude (n < 0) (Format.single.ofNat n.natAbs)

def ofDecimal (negative : Bool) (digits : Nat) (exponent : Int) : Binary32 :=
  ofMagnitude negative (Format.single.ofDecimal digits exponent)

instance (n : Nat) : OfNat Binary32 n := ⟨ofNat n⟩

instance : Add Binary32 := ⟨fun x y => ofFloat (x.toFloat+y.toFloat)⟩

instance : Sub Binary32 := ⟨fun x y => ofFloat (x.toFloat-y.toFloat)⟩

instance : Mul Binary32 := ⟨fun x y => ofFloat (x.toFloat*y.toFloat)⟩

instance : Div Binary32 := ⟨fun x y => ofFloat (x.toFloat/y.toFloat)⟩

def sqrt (x : Binary32) : Binary32 := ofFloat x.toFloat.sqrt

def exp (x : Binary32) : Binary32 := ofFloat x.toFloat.exp

def log (x : Binary32) : Binary32 := ofFloat x.toFloat.log

/-- The nearest single, ties to even. -/
def ofDouble (x : Binary64) : Binary32 :=
  if x.isNaN then nan
  else ofMagnitude x.isNegative
    (Format.single.round (Format.double.units x.magnitude) (1 <<< Format.double.scale))

/-- Exact, since every single is a double. -/
def toDouble (x : Binary32) : Binary64 :=
  if x.isNaN then Binary64.nan
  else if x.isFinite then Binary64.ofMagnitude x.isNegative
    (Format.double.round (Format.single.units x.magnitude) (1 <<< Format.single.scale))
  else Binary64.ofMagnitude x.isNegative Format.double.infinity

/-- The nearest integer of a finite value, a half away from zero. -/
def nearestInt? (x : Binary32) : Option Int :=
  if x.isFinite then
    let n := (2*Format.single.units x.magnitude+2^Format.single.scale)/2^(Format.single.scale+1)
    some (if x.isNegative then -(n : Int) else n)
  else none

/-- The second one of two equal values, so of zeros too, and the other one of a NaN and a number. -/
def min (x y : Binary32) : Binary32 := if x.isNaN || y ≤ x then y else x

def max (x y : Binary32) : Binary32 := if x.isNaN || x ≤ y then y else x

theorem less_irrefl (x : Binary32) : ¬x < x := by
  show ¬x.less x = true
  simp [less]

theorem less_trans {x y z : Binary32} (h : x < y) (k : y < z) : x < z := by
  have h' : x.less y = true := h
  have k' : y.less z = true := k
  show x.less z = true
  simp only [less,Bool.and_eq_true,Bool.not_eq_true',decide_eq_true_eq] at h' k' ⊢
  exact ⟨⟨h'.1.1,k'.1.2⟩,by omega⟩

end Binary32

end GlobeBins

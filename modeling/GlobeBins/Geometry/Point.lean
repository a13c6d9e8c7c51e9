namespace GlobeBins

structure Point (κ : Type) where
  x : κ
  y : κ
  deriving DecidableEq,Inhabited

/-- The way a path through three points turns at the second one. -/
inductive Turn where
  | left
  | right
  | straight
  deriving DecidableEq,Repr

/-- Numbers that geometry is done with. -/
class Coordinate (κ : Type) extends Add κ,Sub κ,Mul κ,Div κ,LT κ,LE κ where
  decideLt : DecidableLT κ
  decideLe : DecidableLE κ
  ofNat : Nat → κ
  half : κ
  isFinite : κ → Bool
  /-- Integer part; negative values and what is no number give 0. -/
  truncate : κ → Nat
  turn : Point κ → Point κ → Point κ → Turn

instance Coordinate.decidableLT {κ : Type} [Coordinate κ] : DecidableLT κ := Coordinate.decideLt

instance Coordinate.decidableLE {κ : Type} [Coordinate κ] : DecidableLE κ := Coordinate.decideLe

namespace Coordinate

variable {κ : Type} [Coordinate κ]

/-- Neither above nor below; differs from sameness on signed zeros. -/
def equal (a b : κ) : Bool := a ≤ b && b ≤ a

/-- The second one of two equal values, and the other one of a value that is no number. -/
def minimum (a b : κ) : κ := if b ≤ a ∨ ¬a ≤ a then b else a

def maximum (a b : κ) : κ := if a ≤ b ∨ ¬a ≤ a then b else a

end Coordinate

end GlobeBins

import GlobeBins.Numeric.Binary32

namespace GlobeBins

/-- The operations of sums and means. Programs run on singles; the formulas can be read over exact
numbers. -/
class Arithmetic (α : Type) extends Add α,Sub α,Mul α,Div α,LT α,LE α where
  decideLt : DecidableLT α
  decideLe : DecidableLE α
  ofInt : Int → α
  half : α
  sqrt : α → α
  exp : α → α
  log : α → α
  /-- An observation count raised to a power. -/
  countPower : Int → Binary64 → α

instance Arithmetic.decidableLT {α : Type} [Arithmetic α] : DecidableLT α := Arithmetic.decideLt

instance Arithmetic.decidableLE {α : Type} [Arithmetic α] : DecidableLE α := Arithmetic.decideLe

instance : Arithmetic Binary32 where
  decideLt := inferInstance
  decideLe := inferInstance
  ofInt := Binary32.ofInt
  half := Binary32.half
  sqrt := Binary32.sqrt
  exp := Binary32.exp
  log := Binary32.log
  countPower n x := Binary32.ofDouble (Binary64.power (Binary64.ofInt n) x)

namespace Arithmetic

variable {α : Type} [Arithmetic α]

def zero : α := ofInt 0

/-- Rounding can make a variance slightly negative; then it is taken as zero. -/
def clampVariance (x : α) : α := if zero < x then x else zero

end Arithmetic

/-- Replaces the front of a vector and keeps the rest. -/
def overwrite {α : Type} (front vector : List α) : List α := front++vector.drop front.length

/-- What is overwritten does not matter. -/
theorem overwrite_eq_front {α : Type} (front vector : List α) (h : vector.length = front.length) :
    overwrite front vector = front := by
  simp [overwrite,List.drop_eq_nil_of_le (Nat.le_of_eq h)]

end GlobeBins

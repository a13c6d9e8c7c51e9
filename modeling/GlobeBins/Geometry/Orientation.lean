import GlobeBins.Geometry.Point
import GlobeBins.Numeric.Expansion

namespace GlobeBins

/-- Sign of an exact determinant. -/
def Turn.ofInt (n : Int) : Turn := if 0 < n then left else if n < 0 then right else straight

/-- Sign of a determinant, and straight if that is no number. -/
def Turn.ofDeterminant (d : Binary64) : Turn :=
  if 0 < d then left else if d < 0 then right else straight

namespace Orientation

open Expansion (Rounded difference product ofDifference estimate leading)

/-- Error of the rounded determinant, for each unit of the sum of its products: a little more than
three roundings. -/
def roundedBound : Binary64 := ⟨0x3cb8000000000004⟩

/-- As `roundedBound`, if the products are exact. -/
def productBound : Binary64 := ⟨0x3cb0000000000003⟩

/-- As `roundedBound`, if the offsets' errors count to the first order. -/
def offsetBound : Binary64 := ⟨0x3982000000000004⟩

/-- Error that such a determinant has by its own rounding, for each unit of it. -/
def resultBound : Binary64 := ⟨0x3cb8000000000002⟩

/-- The value is not nearer to zero than its error. -/
def settles (d bound : Binary64) : Bool := bound ≤ d || bound ≤ -d

/-- Position relative to another point, with the errors of its coordinates. -/
def offset (p q : Point Binary64) : Point Rounded := ⟨difference p.x q.x,difference p.y q.y⟩

/-- The determinant of two positions, exactly. -/
def cross (p q : Point Binary64) : Expansion :=
  ofDifference (product p.x q.y) (product p.y q.x)

def values (p : Point Rounded) : Point Binary64 := ⟨p.x.value,p.y.value⟩

def errors (p : Point Rounded) : Point Binary64 := ⟨p.x.error,p.y.error⟩

def isZero (p : Point Binary64) : Bool := p.x.equal 0 && p.y.equal 0

/-- The determinant of two offsets with their errors. -/
def exact (p q : Point Rounded) : Expansion :=
  (((cross (values p) (values q)).add (cross (errors p) (values q))).add
    (cross (values p) (errors q))).add (cross (errors p) (errors q))

/-- The determinant of two offsets, as closely as its sign needs; `sum` is that of its rounded
products. -/
def refined (p q : Point Rounded) (sum : Binary64) : Binary64 :=
  let d := estimate (cross (values p) (values q))
  if settles d (productBound*sum) || isZero (errors p) && isZero (errors q) then d
  else
    let bound := offsetBound*sum+resultBound*d.abs
    let d := d+((p.x.value*q.y.error+q.y.value*p.x.error)-
      (p.y.value*q.x.error+q.x.value*p.y.error))
    if settles d bound then d else leading (exact p q)

/-- Twice the area of a triangle, positive if it is walked to the left; only the sign counts. -/
def determinant (a b c : Point Binary64) : Binary64 :=
  let left := (a.x-c.x)*(b.y-c.y)
  let right := (a.y-c.y)*(b.x-c.x)
  let d := left-right
  let sum := (left+right).abs
  if settles d (roundedBound*sum) then d else refined (offset a c) (offset b c) sum

/-- Whole multiples of 2 to the minus 300 below 2 to the 300. Their differences and products have
errors that are doubles, so that determinants have their exact signs. -/
def isModerate (x : Binary64) : Bool :=
  x.isFinite && x.units%2^774 = 0 && x.units.natAbs < 2^1374

/-- Finite doubles are whole multiples of the least one, so this is the determinant without any
rounding. -/
def exactUnits (a b c : Point Binary64) : Int :=
  (a.x.units-c.x.units)*(b.y.units-c.y.units)-(a.y.units-c.y.units)*(b.x.units-c.x.units)

def turn (a b c : Point Binary64) : Turn :=
  if [a,b,c].all fun p => isModerate p.x && isModerate p.y then .ofInt (exactUnits a b c)
  else .ofDeterminant (determinant a b c)

end Orientation

instance : Coordinate Binary64 where
  decideLt := inferInstance
  decideLe := inferInstance
  ofNat := Binary64.ofNat
  half := Binary64.half
  isFinite := Binary64.isFinite
  truncate := Binary64.truncate
  turn := Orientation.turn

end GlobeBins

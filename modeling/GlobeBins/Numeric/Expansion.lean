import GlobeBins.Numeric.Binary64

namespace GlobeBins

abbrev Expansion := List Binary64

namespace Expansion

/-- Rounding error of a sum `x`. -/
def sumError (a b x : Binary64) : Binary64 :=
  let b' := x-a
  let a' := x-b'
  (a-a')+(b-b')

/-- As `sumError`, in fewer steps, if `a` is not the smaller one of the terms. -/
def quickSumError (a b x : Binary64) : Binary64 := b-(x-a)

/-- Rounding error of a difference `x`. -/
def differenceError (a b x : Binary64) : Binary64 :=
  let b' := a-x
  let a' := x+b'
  (a-a')+(b'-b)

/-- Two to the 27 and one, which cuts a fraction into halves. -/
def splitter : Binary64 := ⟨0x41a0000002000000⟩

/-- Two doubles of half the digits with the same sum. -/
def split (a : Binary64) : Binary64 × Binary64 :=
  let c := splitter*a
  let high := c-(c-a)
  (high,a-high)

/-- Rounding error of a product `x`. -/
def productError (a b x : Binary64) : Binary64 :=
  let (aHigh,aLow) := split a
  let (bHigh,bLow) := split b
  aLow*bLow-(x-aHigh*bHigh-aLow*bHigh-aHigh*bLow)

/-- A rounded result with its error. -/
structure Rounded where
  value : Binary64
  error : Binary64

def sum (a b : Binary64) : Rounded := ⟨a+b,sumError a b (a+b)⟩

def difference (a b : Binary64) : Rounded := ⟨a-b,differenceError a b (a-b)⟩

def product (a b : Binary64) : Rounded := ⟨a*b,productError a b (a*b)⟩

/-- Exact difference of two results with their errors. -/
def ofDifference (p q : Rounded) : Expansion :=
  let low := difference p.error q.error
  let middle := sum p.value low.value
  let next := difference middle.error q.value
  let high := sum middle.value next.value
  [low.error,next.error,high.error,high.value]

/-- The first term is not the larger one in magnitude. -/
def precedes (x y : Binary64) : Bool := decide (x < y) == decide (-x < y)

/-- Keeps an error unless it is zero. -/
def keep (error : Binary64) (reversed : Expansion) : Expansion :=
  if error.equal 0 then reversed else error::reversed

/-- Adds terms to a running sum; `reversed` are the errors so far, backwards. -/
def collect (running : Binary64) (reversed : Expansion) : List Binary64 → Expansion
  | [] => (if running.equal 0 && !reversed.isEmpty then reversed else running::reversed).reverse
  | t::ts => collect (running+t) (keep (sumError running t (running+t)) reversed) ts

/-- Adds what is left of two expansions to their least term. -/
def collectFrom (least : Binary64) (e f : Expansion) : Expansion :=
  match e.merge f precedes with
  | [] => [least]
  | t::ts =>
    let running := t+least
    let error := if e.isEmpty || f.isEmpty then sumError least t running
      else quickSumError t least running
    collect running (keep error []) ts

/-- Exact sum, without terms that are zero. -/
def add : Expansion → Expansion → Expansion
  | x::e,y::f => if precedes x y then collectFrom x e (y::f) else collectFrom y (x::e) f
  | e,f => e++f

/-- Rounded sum of all terms. -/
def estimate : Expansion → Binary64
  | [] => 0
  | x::e => e.foldl (·+·) x

/-- The largest term, which has the sign of the sum. -/
def leading (e : Expansion) : Binary64 := e.getLastD 0

end Expansion

end GlobeBins

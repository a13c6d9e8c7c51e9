import GlobeBins.Numeric.Format

namespace GlobeBins.Format

/-- Rounding interval of a magnitude as half units: its lower end, its value and its upper end. -/
def interval (F : Format) (magnitude : Nat) : Nat × Nat × Nat :=
  (F.units (magnitude-1)+F.units magnitude,2*F.units magnitude,
    F.units magnitude+F.units (magnitude+1))

/-- Tries one decimal grid: `value/step` lies between two grid points. Ends count if `closed`. -/
def gridPoint? (low value high step : Nat) (closed : Bool) : Option Nat :=
  let below := value/step
  let above := below+1
  let inside := fun n =>
    0 < n ∧ if closed then low ≤ n*step ∧ n*step ≤ high else low < n*step ∧ n*step < high
  let nearer := value-below*step
  let farther := above*step-value
  let prefers := ¬inside above ∨ nearer < farther ∨ (nearer = farther ∧ below%2 = 0)
  if inside below ∧ prefers then some below
  else if inside above then some above
  else none

/-- Walks from a coarse grid of step 10 to the `exponent` to finer ones. -/
def searchGrid (low value high : Nat) (closed : Bool) (scale : Nat) : Nat → Int → Nat × Int
  | 0,exponent => (0,exponent)
  | fuel+1,exponent =>
    let up := 10^(-exponent).toNat
    let step := 10^exponent.toNat <<< scale
    match gridPoint? (low*up) (value*up) (high*up) step closed with
    | some n => (n,exponent)
    | none => searchGrid low value high closed scale fuel (exponent-1)

/-- Digits and power of ten of a finite magnitude above zero. Twenty grids reach past the seventeen
digits that always suffice for a double. -/
def shortest (F : Format) (magnitude : Nat) : Nat × Int :=
  let (low,value,high) := F.interval magnitude
  let binary : Int := value.log2-(F.scale+1)
  searchGrid low value high (magnitude%2 = 0) (F.scale+1) 24 (binary*30103/100000+2)

end GlobeBins.Format

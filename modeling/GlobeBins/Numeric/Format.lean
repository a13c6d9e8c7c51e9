import GlobeBins.Numeric.Power

namespace GlobeBins

/-- Finite magnitudes are whole multiples of 2 to the minus `scale`. -/
structure Format where
  fraction : Nat
  scale : Nat
  exponents : Nat
  deriving DecidableEq

namespace Format

def single : Format := ⟨23,149,255⟩

def double : Format := ⟨52,1074,2047⟩

/-- Every pattern above this one is a NaN. -/
def infinity (F : Format) : Nat := F.exponents*2^F.fraction

/-- Subnormal patterns and the first binade count single units, each later binade doubles them. -/
def units (F : Format) (magnitude : Nat) : Nat :=
  if magnitude < 2^F.fraction then magnitude
  else (2^F.fraction+magnitude%2^F.fraction) <<< (magnitude/2^F.fraction-1)

/-- Quotient rounded to the nearest integer, a half to the even neighbour. -/
def nearestEven (n d : Nat) : Nat :=
  let q := n/d
  let r := n%d
  if 2*r < d then q else if d < 2*r then q+1 else q+q%2

/-- A carry out of the fraction lands in the exponent, so both fields are one sum. -/
def round (F : Format) (n d : Nat) : Nat :=
  let scaled := n <<< F.scale
  let shift := (scaled/d).log2-F.fraction
  min F.infinity (nearestEven scaled (d <<< shift)+shift <<< F.fraction)

/-- The pattern nearest to a natural number. One that fits in the fraction needs no division. -/
def ofNat (F : Format) (n : Nat) : Nat :=
  let binade := n.log2
  if n = 0 then 0
  else if binade ≤ F.fraction then
    n <<< (F.fraction-binade)+(binade+F.scale-F.fraction) <<< F.fraction
  else F.round n 1

/-- Integer part of a finite magnitude. -/
def integerPart (F : Format) (magnitude : Nat) : Nat :=
  let fraction := 2^F.fraction+magnitude%2^F.fraction
  let binade := magnitude/2^F.fraction-1
  if magnitude < 2^F.fraction then 0
  else if binade ≤ F.scale then fraction >>> (F.scale-binade)
  else fraction <<< (binade-F.scale)

/-- Digits times a power of ten. Exponents beyond every format's range are settled first, so no
huge power is formed. -/
def ofDecimal (F : Format) (digits : Nat) (exponent : Int) : Nat :=
  let size : Int := (digits.log2 : Int)/4+exponent
  if digits = 0 then 0
  else if 400 < size then F.infinity
  else if exponent < -(400+digits.log2) then 0
  else if 0 ≤ exponent then F.round (digits*10^exponent.toNat) 1
  else F.round digits (10^(-exponent).toNat)

theorem nearestEven_one (n : Nat) : nearestEven n 1 = n := by
  simp [nearestEven,Nat.mod_one]

theorem nearestEven_zero (d : Nat) (h : 0 < d) : nearestEven 0 d = 0 := by
  simp [nearestEven,h]

theorem log2_shiftLeft {n : Nat} (h : n ≠ 0) (k : Nat) : (n <<< k).log2 = n.log2+k := by
  have low := Nat.log2_self_le h
  have high : n < 2^(n.log2+1) := Nat.lt_log2_self
  have pos := Nat.two_pow_pos k
  have ne : n*2^k ≠ 0 := Nat.mul_ne_zero h (Nat.ne_of_gt pos)
  rw [Nat.shiftLeft_eq,Nat.log2_eq_iff ne]
  constructor
  · rw [Nat.pow_add]
    exact Nat.mul_le_mul_right _ low
  · rw [Nat.add_right_comm,Nat.pow_add 2 (n.log2+1) k]
    exact Nat.mul_lt_mul_of_pos_right high pos

theorem nearestEven_mul (n d : Nat) (h : 0 < d) : nearestEven (n*d) d = n := by
  simp [nearestEven,h]

/-- Naturals that fit in the fraction are their own nearest patterns. -/
theorem ofNat_eq_round (F : Format) (h : F.fraction ≤ F.scale) (fits : F.scale+2 ≤ F.exponents)
    (n : Nat) : F.ofNat n = F.round n 1 := by
  unfold ofNat
  simp only
  split
  next zero => simp [zero,round,nearestEven]
  next pos =>
    split
    next small =>
      obtain ⟨k,hk⟩ := Nat.exists_eq_add_of_le small
      have split : F.scale = n.log2+F.scale-F.fraction+k := by omega
      have below : n <<< k < 2^(F.fraction+1) := by
        rw [Nat.shiftLeft_eq,hk,Nat.add_right_comm,Nat.pow_add]
        exact Nat.mul_lt_mul_of_pos_right Nat.lt_log2_self (Nat.two_pow_pos k)
      have bound : n <<< k+(n.log2+F.scale-F.fraction) <<< F.fraction ≤ F.infinity := by
        have exponent : n.log2+F.scale-F.fraction+2 ≤ F.exponents := by omega
        have := Nat.mul_le_mul_right (2^F.fraction) exponent
        rw [Nat.add_mul] at this
        rw [Nat.shiftLeft_eq (n.log2+F.scale-F.fraction),infinity]
        rw [Nat.pow_succ] at below
        omega
      have value : n <<< F.scale = n <<< k*2^(n.log2+F.scale-F.fraction) := by
        rw [← Nat.shiftLeft_eq,← Nat.shiftLeft_add,← Nat.add_comm,← split]
      have rounded : F.round n 1 = min F.infinity
          (n <<< k+(n.log2+F.scale-F.fraction) <<< F.fraction) := by
        unfold round
        simp only [Nat.div_one]
        rw [log2_shiftLeft pos,Nat.one_shiftLeft,value,nearestEven_mul _ _ (Nat.two_pow_pos _)]
      rw [rounded,Nat.min_eq_right bound,hk,Nat.add_sub_cancel_left]
    next => rfl

theorem round_le_infinity (F : Format) (n d : Nat) : F.round n d ≤ F.infinity :=
  Nat.min_le_left _ _

end Format

end GlobeBins

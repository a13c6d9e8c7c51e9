import GlobeBins.Numeric.Binary64
import GlobeBins.Proofs.Numeric.Arithmetic

namespace GlobeBins.Binary64

open Float.Model (UnpackedFloat)
open Float.Model.UnpackedFloat
open Machine (Reads pattern)

variable {x y z : Binary64} {s t : Sign} {n l : Nat} {u : UnpackedFloat}

theorem double_eq : Format.ofMachine .binary64 = .double := rfl

def sign (x : Binary64) : Sign := if x.isNegative then .negative else .positive

theorem magnitude_eq : x.magnitude = x.bits.toNat%2^63 := by
  have mask : (0x7fffffffffffffff : UInt64).toNat = 2^63-1 := rfl
  rw [magnitude,UInt64.toNat_and,mask,Nat.and_two_pow_sub_one_eq_mod]

theorem isNegative_iff : x.isNegative = true ↔ 2^63 ≤ x.bits.toNat := by
  rw [isNegative,decide_eq_true_eq,UInt64.le_iff_toNat_le]
  rfl

theorem pattern_eq : pattern .binary64 s n = s.toBitVec.toNat*2^63+n := rfl

theorem sign_eq : x.sign = Machine.signOf .binary64 x.bits.toNat := by
  have neg := @isNegative_iff x
  unfold sign Machine.signOf
  simp only [neg]

theorem bits_pattern : x.bits.toNat = pattern .binary64 x.sign x.magnitude := by
  rw [sign_eq,magnitude_eq]
  exact Machine.pattern_parts x.bits.toNat_lt

/-- A double is given by its sign and its magnitude. -/
theorem of_pattern (bits : x.bits.toNat = pattern .binary64 s n)
    (small : n ≤ Format.double.infinity) : x.sign = s ∧ x.magnitude = n := by
  rw [sign_eq,magnitude_eq,bits]
  exact Machine.parts_of_pattern (Nat.lt_of_le_of_lt small (by decide))

theorem key_eq : x.key = x.sign.apply x.magnitude := by
  unfold key sign
  split_ifs <;> rfl

theorem units_eq : x.units = x.sign.apply (Format.double.units x.magnitude) := by
  unfold units sign
  split_ifs <;> rfl

theorem isFinite_iff : x.isFinite = true ↔ x.magnitude < Format.double.infinity := by
  rw [isFinite,decide_eq_true_eq]

theorem not_isNaN (h : x.isFinite = true) : x.isNaN = false := by
  rw [isNaN,decide_eq_false_iff_not,Nat.not_lt]
  exact (isFinite_iff.mp h).le

theorem nearest_units (h : x.isFinite = true) : Format.double.nearest x.units = x.key := by
  rw [units_eq,Machine.nearest_units,Nat.min_eq_right (isFinite_iff.mp h).le,key_eq]

/-- A finite double is what its bits are unpacked to. -/
theorem toFloat_reads (h : x.isFinite = true) :
    Reads .binary64 x.toFloat.toModel.unpack x.sign x.magnitude := by
  have finite := isFinite_iff.mp h
  have first : Reads .binary64 (unpack .binary64 x.bits.toBitVec) x.sign x.magnitude :=
    Machine.unpack_reads bits_pattern finite
  have packed := Machine.pack_reads (by decide) first
  rw [double_eq,Nat.min_eq_right finite.le] at packed
  exact Machine.unpack_reads packed finite

/-- What the machine packs has the sign of the value and its magnitude, up to infinity. -/
theorem ofFloat_pack (h : Reads .binary64 u s n) :
    (ofFloat (.ofModel (Float.Model.pack u))).sign = s ∧
      (ofFloat (.ofModel (Float.Model.pack u))).magnitude = min Format.double.infinity n := by
  apply of_pattern _ (Nat.min_le_left _ _)
  exact Machine.pack_reads (by decide) h

theorem of_rounded {z : Int} (h : Reads .binary64 u s n)
    (rounded : s.apply (min Format.double.infinity n : Nat) = Format.double.nearest z)
    (same : y = ofFloat (.ofModel (Float.Model.pack u))) :
    y.isNaN = false ∧ y.key = Format.double.nearest z := by
  obtain ⟨sign,magnitude⟩ := ofFloat_pack h
  rw [← same] at sign magnitude
  constructor
  · rw [isNaN,magnitude,decide_eq_false_iff_not,Nat.not_lt]
    exact Nat.min_le_left _ _
  · rw [key_eq,sign,magnitude,rounded]

theorem key_add (hx : x.isFinite = true) (hy : y.isFinite = true) :
    (x+y).isNaN = false ∧ (x+y).key = Format.double.nearest (x.units+y.units) := by
  obtain ⟨s,n,reads,rounded⟩ := Machine.add_reads (toFloat_reads hx) (toFloat_reads hy)
  rw [units_eq,units_eq]
  exact of_rounded reads rounded rfl

theorem key_sub (hx : x.isFinite = true) (hy : y.isFinite = true) :
    (x-y).isNaN = false ∧ (x-y).key = Format.double.nearest (x.units-y.units) := by
  obtain ⟨s,n,reads,rounded⟩ := Machine.sub_reads (toFloat_reads hx) (toFloat_reads hy)
  rw [units_eq,units_eq]
  exact of_rounded reads rounded rfl

theorem mul_eq (hx : x.isFinite = true) (hy : y.isFinite = true) :
    (x*y).sign = x.sign*y.sign ∧ (x*y).magnitude =
      Format.double.round (Format.double.units x.magnitude*Format.double.units y.magnitude)
        (2^(2*Format.double.scale)) := by
  obtain ⟨n,reads,rounded⟩ := Machine.mul_reads (toFloat_reads hx) (toFloat_reads hy)
  rw [double_eq] at rounded
  obtain ⟨sign,magnitude⟩ := ofFloat_pack reads
  exact ⟨sign,magnitude.trans rounded⟩

theorem div_eq (hx : x.isFinite = true) (hy : y.isFinite = true) (pos : 0 < y.magnitude) :
    (x/y).sign = x.sign/y.sign ∧ (x/y).magnitude =
      Format.double.round (Format.double.units x.magnitude) (Format.double.units y.magnitude) := by
  obtain ⟨n,reads,rounded⟩ := Machine.div_reads (toFloat_reads hx) (toFloat_reads hy) pos
  obtain ⟨sign,magnitude⟩ := ofFloat_pack reads
  exact ⟨sign,magnitude.trans rounded⟩

theorem toFloat_infinity (h : x.magnitude = Format.double.infinity) :
    x.toFloat.toModel.unpack = .infinity x.sign := by
  have first : unpack .binary64 x.bits.toBitVec = .infinity x.sign := by
    apply Machine.unpack_infinity
    exact bits_pattern.trans (by rw [h,double_eq])
  apply Machine.unpack_infinity
  change (pack .binary64 (unpack .binary64 x.bits.toBitVec)).toNat = _
  rw [first]
  exact Machine.packedInfinity_toNat x.sign

theorem div_infinity (hx : x.isFinite = true) (hy : y.magnitude = Format.double.infinity) :
    (x/y).sign = x.sign/y.sign ∧ (x/y).magnitude = 0 := by
  have quotient : Reads .binary64 (div .binary64 x.toFloat.toModel.unpack y.toFloat.toModel.unpack)
      (x.sign/y.sign) 0 := by
    rw [toFloat_infinity hy]
    exact Machine.div_infinity_reads (toFloat_reads hx)
  obtain ⟨sign,magnitude⟩ := ofFloat_pack quotient
  exact ⟨sign,magnitude.trans (Nat.min_zero _)⟩

theorem le_iff (hx : x.isFinite = true) (hy : y.isFinite = true) : x ≤ y ↔ x.units ≤ y.units := by
  change x.lessEq y = true ↔ _
  rw [lessEq,not_isNaN hx,not_isNaN hy,key_eq,key_eq,units_eq,units_eq,Machine.apply_units_le]
  simp

theorem lt_iff (hx : x.isFinite = true) (hy : y.isFinite = true) : x < y ↔ x.units < y.units := by
  have total : x < y ↔ ¬y ≤ x := by
    change x.less y = true ↔ ¬y.lessEq x = true
    rw [less,lessEq,not_isNaN hx,not_isNaN hy]
    simp
  rw [total,le_iff hy hx,not_le]

theorem key_le_iff : x.key ≤ y.key ↔ x.units ≤ y.units := by
  rw [key_eq,key_eq,units_eq,units_eq,Machine.apply_units_le]

/-- What lies between the infinities is finite. -/
theorem finite_of_key (low : -(Format.double.infinity : Int) < x.key)
    (high : x.key < Format.double.infinity) : x.isFinite = true := by
  rw [isFinite_iff]
  rw [key_eq] at low high
  cases sign : x.sign <;> rw [sign] at low high <;> simp only [Sign.apply] at low high <;> omega

def IsInfinite (x : Binary64) : Prop := x.magnitude = Format.double.infinity

theorem less_iff : x < y ↔ x.isNaN = false ∧ y.isNaN = false ∧ x.key < y.key := by
  change x.less y = true ↔ _
  simp [less,and_assoc]

theorem key_le_of_not_less (hx : x.isNaN = false) (hy : y.isNaN = false) (h : ¬y < x) :
    x.key ≤ y.key := by
  rw [less_iff] at h
  by_contra gt
  exact h ⟨hy,hx,by omega⟩

theorem key_of_finite (h : x.isFinite = true) :
    -(Format.double.infinity : Int) < x.key ∧ x.key < Format.double.infinity := by
  have finite := isFinite_iff.mp h
  unfold key
  split_ifs <;> omega

theorem finite_between (hx : x.isFinite = true) (hy : y.isFinite = true) (low : x.key ≤ z.key)
    (high : z.key ≤ y.key) : z.isFinite = true :=
  finite_of_key ((key_of_finite hx).1.trans_le low) (high.trans_lt (key_of_finite hy).2)

theorem not_infinite_of_finite (h : x.isFinite = true) : ¬x.IsInfinite := by
  have finite := isFinite_iff.mp h
  unfold IsInfinite
  omega

/-- A number that is not infinite is finite. -/
theorem finite_of_not_infinite (number : x.isNaN = false) (h : ¬x.IsInfinite) :
    x.isFinite = true := by
  rw [isNaN,decide_eq_false_iff_not] at number
  unfold IsInfinite at h
  rw [isFinite_iff]
  omega

/-- The value of the greatest finite double. -/
def greatest : Nat := Format.double.units (Format.double.infinity-1)

theorem units_bounds (h : x.isFinite = true) : -(greatest : Int) ≤ x.units ∧ x.units ≤ greatest := by
  have finite := isFinite_iff.mp h
  have bound : Format.double.units x.magnitude ≤ greatest := Format.units_le.mpr (by omega)
  rw [units_eq]
  cases x.sign <;> simp only [Sign.apply] <;> omega

/-- A full turn beyond the greatest double is still rounded to that one. -/
theorem finite_of_nearest {z : Int} (key : x.key = Format.double.nearest z)
    (low : -(greatest+(360 : Binary64).units : Int) ≤ z)
    (high : z ≤ greatest+(360 : Binary64).units) : x.isFinite = true := by
  apply finite_of_key
  · rw [key]
    calc -(Format.double.infinity : Int)
        < Format.double.nearest (-(greatest+(360 : Binary64).units)) := by decide +kernel
      _ ≤ Format.double.nearest z := Format.nearest_mono low
  · rw [key]
    calc Format.double.nearest z ≤ Format.double.nearest (greatest+(360 : Binary64).units) :=
          Format.nearest_mono high
      _ < Format.double.infinity := by decide +kernel

/-- A step forward or backward of at most a full turn. -/
structure Step (b : Binary64) : Prop where
  finite : b.isFinite = true
  forward : 0 ≤ b.units
  turn : b.units ≤ (360 : Binary64).units

theorem add_step (hx : x.isFinite = true) (hy : Step y) : (x+y).isFinite = true ∧ x ≤ x+y := by
  obtain ⟨_,key⟩ := key_add hx hy.finite
  obtain ⟨low,high⟩ := units_bounds hx
  have forward := hy.forward
  have turn := hy.turn
  have finite : (x+y).isFinite = true := finite_of_nearest key (by omega) (by omega)
  have up : x.key ≤ (x+y).key := by
    rw [key,← nearest_units hx]
    exact Format.nearest_mono (by omega)
  exact ⟨finite,(le_iff hx finite).mpr (key_le_iff.mp up)⟩

theorem sub_step (hx : x.isFinite = true) (hy : Step y) : (x-y).isFinite = true ∧ x-y ≤ x := by
  obtain ⟨_,key⟩ := key_sub hx hy.finite
  obtain ⟨low,high⟩ := units_bounds hx
  have forward := hy.forward
  have turn := hy.turn
  have finite : (x-y).isFinite = true := finite_of_nearest key (by omega) (by omega)
  have down : (x-y).key ≤ x.key := by
    rw [key,← nearest_units hx]
    exact Format.nearest_mono (by omega)
  exact ⟨finite,(le_iff finite hx).mpr (key_le_iff.mp down)⟩

theorem ofNat_eq (n : Nat) : (ofNat n).sign = .positive ∧
    (ofNat n).magnitude = Format.double.round n 1 := by
  have rounded := Format.ofNat_eq_round .double (by decide) (by decide) n
  have small := Format.round_le_infinity .double n 1
  apply of_pattern _ small
  have zero : Sign.positive.toBitVec.toNat = 0 := rfl
  have bound : Format.double.round n 1 < 2^64 := Nat.lt_of_le_of_lt small (by decide)
  rw [pattern_eq,zero,ofNat,ofMagnitude,rounded]
  simp only [Bool.false_eq_true,if_false,UInt64.or_zero]
  rw [Nat.zero_mul,Nat.zero_add]
  exact Nat.mod_eq_of_lt bound

/-- Part of a turn, however large the number of parts. -/
theorem turn_step {n : Nat} (pos : 0 < n) : Step ((360 : Binary64)/ofNat n) := by
  obtain ⟨sign,magnitude⟩ := ofNat_eq n
  have finite : (360 : Binary64).isFinite = true := by decide +kernel
  have positive : (360 : Binary64).sign = .positive := (ofNat_eq 360).1
  have parts : ((360 : Binary64)/ofNat n).sign = .positive ∧
      ((360 : Binary64)/ofNat n).magnitude ≤ (360 : Binary64).magnitude := by
    rcases Nat.lt_or_eq_of_le (Format.round_le_infinity .double n 1) with below | infinite
    · have one : Format.double.round 1 1 ≤ (ofNat n).magnitude := by
        rw [magnitude]
        exact Format.round_mono Nat.one_pos Nat.one_pos (by omega)
      have unit : Format.double.units (Format.double.round 1 1) = 1 <<< Format.double.scale := by
        decide +kernel
      have least : 0 < Format.double.round 1 1 := by decide +kernel
      have divisor : 1 <<< Format.double.scale ≤ Format.double.units (ofNat n).magnitude := by
        rw [← unit]
        exact Format.units_le.mpr one
      have scale : 0 < 1 <<< Format.double.scale := by decide +kernel
      obtain ⟨signs,quotient⟩ := div_eq finite (isFinite_iff.mpr (magnitude ▸ below))
        (Nat.lt_of_lt_of_le least one)
      refine ⟨by rw [signs,positive,sign]; rfl,?_⟩
      rw [quotient]
      calc Format.double.round (Format.double.units (360 : Binary64).magnitude)
            (Format.double.units (ofNat n).magnitude)
          ≤ Format.double.round (Format.double.units (360 : Binary64).magnitude)
            (1 <<< Format.double.scale) :=
            Format.round_mono (Nat.lt_of_lt_of_le scale divisor) scale
              (Nat.mul_le_mul_left _ divisor)
        _ = min Format.double.infinity (360 : Binary64).magnitude := Format.round_units _
        _ ≤ (360 : Binary64).magnitude := Nat.min_le_right _ _
    · obtain ⟨signs,quotient⟩ := @div_infinity 360 (ofNat n) finite (magnitude.trans infinite)
      exact ⟨by rw [signs,positive,sign]; rfl,quotient ▸ Nat.zero_le _⟩
  obtain ⟨forward,small⟩ := parts
  refine ⟨isFinite_iff.mpr (Nat.lt_of_le_of_lt small (isFinite_iff.mp finite)),?_,?_⟩
  · rw [units_eq,forward]
    exact Int.natCast_nonneg _
  · rw [units_eq,units_eq,forward,positive]
    exact Int.ofNat_le.mpr (Format.units_le.mpr small)

end GlobeBins.Binary64

import GlobeBins.Numeric.Binary32
import GlobeBins.Proofs.Numeric.Arithmetic
import GlobeBins.Proofs.Numeric.Whole

namespace GlobeBins.Binary32

open Float.Model (UnpackedFloat)
open Float.Model.UnpackedFloat
open Machine (Reads pattern)

variable {x y : Binary32} {s : Sign} {n m : Nat} {u : UnpackedFloat}

theorem single_eq : Format.ofMachine .binary32 = .single := rfl

def sign (x : Binary32) : Sign := Machine.signOf .binary32 x.bits.toNat

/-- Exact value of a finite single in multiples of 2 to the minus 149. -/
def units (x : Binary32) : Int := x.sign.apply (Format.single.units x.magnitude)

theorem magnitude_eq : x.magnitude = x.bits.toNat%2^31 := by
  have mask : (0x7fffffff : UInt32).toNat = 2^31-1 := rfl
  rw [magnitude,UInt32.toNat_and,mask,Nat.and_two_pow_sub_one_eq_mod]

theorem magnitude_lt : x.magnitude < 2^31 := by
  rw [magnitude_eq]
  exact Nat.mod_lt _ (by decide)

theorem isNegative_iff : x.isNegative = true ↔ 2^31 ≤ x.bits.toNat := by
  rw [isNegative,decide_eq_true_eq,UInt32.le_iff_toNat_le]
  rfl

theorem key_eq : x.key = x.sign.apply x.magnitude := by
  have negative := @isNegative_iff x
  unfold key sign Machine.signOf
  simp only [negative]
  split_ifs <;> rfl

theorem bits_pattern : x.bits.toNat = pattern .binary32 x.sign x.magnitude := by
  rw [sign,magnitude_eq]
  exact Machine.pattern_parts x.bits.toNat_lt

/-- A single is given by its sign and its magnitude. -/
theorem of_pattern (bits : x.bits.toNat = pattern .binary32 s n)
    (small : n ≤ Format.single.infinity) : x.sign = s ∧ x.magnitude = n := by
  rw [sign,magnitude_eq,bits]
  exact Machine.parts_of_pattern (Nat.lt_of_le_of_lt small (by decide))

theorem key_bounds (x : Binary32) : -2^31 < x.key ∧ x.key < 2^31 := by
  have small := @magnitude_lt x
  unfold key
  split_ifs <;> omega

/-- Only the two zeros have a key in common. -/
theorem eq_of_key (same : x.key = y.key) (nonzero : x.key ≠ 0) : x = y := by
  have bits : x.bits.toNat = y.bits.toNat := by
    rw [@bits_pattern x,@bits_pattern y]
    rw [key_eq] at same nonzero
    rw [key_eq] at same
    cases hx : x.sign <;> cases hy : y.sign <;>
      rw [hx] at same nonzero <;> rw [hy] at same <;> simp only [Sign.apply] at same nonzero
    · rw [show x.magnitude = y.magnitude by omega]
    · omega
    · omega
    · rw [show x.magnitude = y.magnitude by omega]
  cases x
  cases y
  exact congrArg mk (UInt32.toNat_inj.mp bits)

theorem lt_iff_key (hx : x.isNaN = false) (hy : y.isNaN = false) : x < y ↔ x.key < y.key := by
  change x.less y = true ↔ _
  simp [less,hx,hy]

theorem le_iff_key (hx : x.isNaN = false) (hy : y.isNaN = false) : x ≤ y ↔ x.key ≤ y.key := by
  change x.lessEq y = true ↔ _
  simp [lessEq,hx,hy]

theorem not_isNaN_of_le (h : x ≤ y) : x.isNaN = false ∧ y.isNaN = false := by
  have parts : x.lessEq y = true := h
  simp only [lessEq,Bool.and_eq_true,Bool.not_eq_true'] at parts
  exact parts.1

theorem le_trans {z : Binary32} (h : x ≤ y) (k : y ≤ z) : x ≤ z := by
  obtain ⟨hx,hy⟩ := not_isNaN_of_le h
  have hz := (not_isNaN_of_le k).2
  rw [le_iff_key hx hy] at h
  rw [le_iff_key hy hz] at k
  rw [le_iff_key hx hz]
  omega

theorem le_of_not_le (hx : x.isNaN = false) (hy : y.isNaN = false) (h : ¬x ≤ y) : y ≤ x := by
  rw [le_iff_key hx hy] at h
  rw [le_iff_key hy hx]
  omega

theorem le_refl (h : x.isNaN = false) : x ≤ x := (le_iff_key h h).mpr (Int.le_refl _)

theorem not_isNaN_of_lt (h : x < y) : x.isNaN = false ∧ y.isNaN = false := by
  have parts : x.less y = true := h
  simp only [less,Bool.and_eq_true,Bool.not_eq_true'] at parts
  exact parts.1

theorem le_of_lt (h : x < y) : x ≤ y := by
  obtain ⟨hx,hy⟩ := not_isNaN_of_lt h
  rw [lt_iff_key hx hy] at h
  exact (le_iff_key hx hy).mpr h.le

theorem lt_of_le_of_lt {z : Binary32} (h : x ≤ y) (k : y < z) : x < z := by
  obtain ⟨hx,hy⟩ := not_isNaN_of_le h
  have hz := (not_isNaN_of_lt k).2
  rw [le_iff_key hx hy] at h
  rw [lt_iff_key hy hz] at k
  exact (lt_iff_key hx hz).mpr (h.trans_lt k)

theorem not_lt_of_le (h : x ≤ y) : ¬y < x := by
  obtain ⟨hx,hy⟩ := not_isNaN_of_le h
  rw [le_iff_key hx hy] at h
  rw [lt_iff_key hy hx]
  exact h.not_gt

theorem le_of_not_lt (hx : x.isNaN = false) (hy : y.isNaN = false) (h : ¬x < y) : y ≤ x := by
  rw [lt_iff_key hx hy,not_lt] at h
  exact (le_iff_key hy hx).mpr h

/-- Numbers lie between the infinities. -/
theorem key_of_number (h : x.isNaN = false) :
    negInfinity.key ≤ x.key ∧ x.key ≤ infinity.key := by
  have most : x.magnitude ≤ Format.single.infinity := by simpa [isNaN] using h
  have low : negInfinity.key = -(Format.single.infinity : Int) := rfl
  have high : infinity.key = Format.single.infinity := rfl
  rw [low,high]
  unfold key
  split_ifs <;> omega

theorem isFinite_iff : x.isFinite = true ↔ x.magnitude < Format.single.infinity := by
  rw [isFinite,decide_eq_true_eq]

theorem not_isNaN (h : x.isFinite = true) : x.isNaN = false := by
  have finite := isFinite_iff.mp h
  simp only [isNaN,decide_eq_false_iff_not]
  omega

theorem lt_iff_not_le (hx : x.isFinite = true) (hy : y.isFinite = true) : x < y ↔ ¬y ≤ x := by
  rw [lt_iff_key (not_isNaN hx) (not_isNaN hy),le_iff_key (not_isNaN hy) (not_isNaN hx)]
  omega

theorem le_iff (hx : x.isFinite = true) (hy : y.isFinite = true) : x ≤ y ↔ x.units ≤ y.units := by
  rw [le_iff_key (not_isNaN hx) (not_isNaN hy),key_eq,key_eq,units,units,Machine.apply_units_le]

/-- A finite single is what its bits are unpacked to. -/
theorem toFloat_reads (h : x.isFinite = true) :
    Reads .binary32 x.toFloat.toModel.unpack x.sign x.magnitude := by
  have finite := isFinite_iff.mp h
  have first : Reads .binary32 (unpack .binary32 x.bits.toBitVec) x.sign x.magnitude :=
    Machine.unpack_reads bits_pattern finite
  have packed := Machine.pack_reads (by decide) first
  rw [single_eq,Nat.min_eq_right finite.le] at packed
  exact Machine.unpack_reads packed finite

/-- What the machine packs has the sign of the value and its magnitude, up to infinity. -/
theorem ofFloat_pack (h : Reads .binary32 u s n) :
    (ofFloat (.ofModel (Float32.Model.pack u))).sign = s ∧
      (ofFloat (.ofModel (Float32.Model.pack u))).magnitude = Nat.min Format.single.infinity n := by
  apply of_pattern _ (Nat.min_le_left _ _)
  exact Machine.pack_reads (by decide) h

theorem key_add (hx : x.isFinite = true) (hy : y.isFinite = true) :
    (x+y).magnitude ≤ Format.single.infinity ∧
      (x+y).key = Format.single.nearest (x.units+y.units) := by
  obtain ⟨s,n,reads,rounded⟩ := Machine.add_reads (toFloat_reads hx) (toFloat_reads hy)
  have packed := ofFloat_pack reads
  change (x+y).sign = s ∧ (x+y).magnitude = _ at packed
  rw [key_eq,packed.1,packed.2]
  exact ⟨Nat.min_le_left _ _,rounded⟩

theorem ofNat_eq (n : Nat) : (ofNat n).sign = .positive ∧
    (ofNat n).magnitude = Format.single.round n 1 := by
  have rounded := Format.ofNat_eq_round .single (by decide) (by decide) n
  have small := Format.round_le_infinity .single n 1
  apply of_pattern _ small
  have bound : Format.single.round n 1 < 2^32 := Nat.lt_of_le_of_lt small (by decide)
  change (UInt32.ofNat (Format.single.ofNat n) ||| 0).toNat = 0*2^31+Format.single.round n 1
  rw [UInt32.or_zero,rounded,Nat.zero_mul,Nat.zero_add]
  exact Nat.mod_eq_of_lt bound

theorem ofInt_natCast (n : Nat) : ofInt n = ofNat n := by
  have sign : ¬(n : Int) < 0 := by omega
  simp [ofInt,ofNat,sign]

/-- Zeros have key 0, and the larger of two natural numbers no lesser key. -/
theorem key_ofNat (n : Nat) : (ofNat n).key = Format.single.round n 1 := by
  obtain ⟨sign,magnitude⟩ := ofNat_eq n
  rw [key_eq,sign,magnitude]
  rfl

theorem key_ofNat_mono (h : n ≤ m) : (ofNat n).key ≤ (ofNat m).key := by
  rw [key_ofNat,key_ofNat]
  exact Int.ofNat_le.mpr (Format.round_mono Nat.one_pos Nat.one_pos (by omega))

/-- The single is this whole number. -/
structure Is (x : Binary32) (n : Int) : Prop where
  finite : x.isFinite = true
  units : x.units = n*2^149

theorem Is.unique {a b : Int} (h : x.Is a) (k : x.Is b) : a = b := by
  have same := h.units.symm.trans k.units
  omega

theorem Is.le_iff {a b : Int} (h : x.Is a) (k : y.Is b) : x ≤ y ↔ a ≤ b := by
  rw [Binary32.le_iff h.finite k.finite,h.units,k.units]
  omega

/-- Far below infinity a rounded whole number is the nearest one. -/
theorem is_of_key (key : x.key = Format.single.round (n*2^149) (1 <<< 149))
    (small : n ≤ 2^64) : x.Is (Format.single.nearestWhole n) := by
  have finite : Format.single.round (n*2^149) (1 <<< 149) < Format.single.infinity := by
    calc Format.single.round (n*2^149) (1 <<< 149)
        ≤ Format.single.round (2^64*2^149) (1 <<< 149) :=
          Format.round_mono (by decide) (by decide)
            (Nat.mul_le_mul_right _ (Nat.mul_le_mul_right _ small))
      _ < Format.single.infinity := by decide +kernel
  have value : Format.single.units (Format.single.round (n*2^149) (1 <<< 149)) =
      Format.single.nearestWhole n*2^149 := by
    rw [← Format.nearestWhole_mul]
    exact Format.units_round finite
  rw [key_eq] at key
  constructor
  · rw [isFinite_iff]
    cases hx : x.sign <;> rw [hx] at key <;> simp only [Sign.apply] at key <;> omega
  · rw [units]
    cases hx : x.sign <;> rw [hx] at key <;> simp only [Sign.apply] at key ⊢
    · -- minus zero
      have zero : x.magnitude = 0 := by omega
      rw [show Format.single.round (n*2^149) (1 <<< 149) = 0 by omega] at value
      rw [zero]
      have none : Format.single.units 0 = 0 := rfl
      rw [none] at value ⊢
      omega
    · rw [show x.magnitude = Format.single.round (n*2^149) (1 <<< 149) by omega,value]
      push_cast
      rfl

theorem is_ofNat (small : n ≤ 2^64) : (ofNat n).Is (Format.single.nearestWhole n) := by
  apply is_of_key _ small
  rw [key_ofNat,Format.round_whole]
  rfl

/-- Up to 2 to the 24 nothing is rounded. -/
theorem is_ofNat_of_le (low : n ≤ 2^24) : (ofNat n).Is n := by
  have whole := is_ofNat (n := n) (by omega)
  rwa [Format.nearestWhole_of_holds (Format.holds_of_le low)] at whole

/-- The sum of two whole numbers is the nearest whole number that singles hold. -/
theorem Is.add (hx : x.Is n) (hy : y.Is m) (small : n+m ≤ 2^64) :
    (x+y).Is (Format.single.nearestWhole (n+m)) := by
  obtain ⟨_,key⟩ := key_add hx.finite hy.finite
  have sum : x.units+y.units = Sign.positive.apply ((n+m)*2^149 : Nat) := by
    rw [hx.units,hy.units]
    simp only [Sign.apply]
    push_cast
    ring
  apply is_of_key _ small
  rw [key,sum,Machine.nearest_apply]
  rfl

end GlobeBins.Binary32

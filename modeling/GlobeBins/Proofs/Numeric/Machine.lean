import GlobeBins.Proofs.Numeric.Rounding

namespace GlobeBins

open Float.Model (UnpackedFloat)
open Float.Model.UnpackedFloat

/-- The constants of a machine format. -/
def Format.ofMachine (spec : Float.Model.Format) : Format :=
  ⟨spec.mantissaBitsWithoutImplicit,(-spec.minExponent).toNat,2^spec.exponentBits-1⟩

namespace Machine

variable {spec : Float.Model.Format}

theorem scale_eq : spec.minExponent = -((Format.ofMachine spec).scale : Int) := by
  have fraction := spec.hm
  have bias := Nat.two_pow_pos (spec.exponentBits-1)
  have pow : ((2^(spec.exponentBits-1) : Nat) : Int) = 2^(spec.exponentBits-1) := by simp
  simp only [Format.ofMachine,Float.Model.Format.minExponent,Float.Model.Format.mantissaBits]
  omega

/-- Normal patterns have their exponent fields start at one. -/
theorem bias_eq : (spec.exponentBias+spec.mantissaBitsWithoutImplicit : Int) =
    (Format.ofMachine spec).scale+1 := by
  have least := @scale_eq spec
  have bias := Nat.two_pow_pos (spec.exponentBits-1)
  have pow : ((2^(spec.exponentBits-1) : Nat) : Int) = 2^(spec.exponentBits-1) := by simp
  simp only [Float.Model.Format.minExponent,Float.Model.Format.mantissaBits,
    Float.Model.Format.exponentBias] at least ⊢
  omega

/-- The bits of a signed magnitude. -/
def pattern (spec : Float.Model.Format) (s : Sign) (n : Nat) : Nat :=
  s.toBitVec.toNat*2^(spec.exponentBits+spec.mantissaBitsWithoutImplicit)+n

/-- The sign that the highest bit stands for. -/
def signOf (spec : Float.Model.Format) (bits : Nat) : Sign :=
  if 2^(spec.exponentBits+spec.mantissaBitsWithoutImplicit) ≤ bits then .negative else .positive

/-- Bits are the pattern of their sign and of the magnitude below it. -/
theorem pattern_parts {bits : Nat}
    (fits : bits < 2*2^(spec.exponentBits+spec.mantissaBitsWithoutImplicit)) :
    bits = pattern spec (signOf spec bits)
      (bits%2^(spec.exponentBits+spec.mantissaBitsWithoutImplicit)) := by
  unfold signOf pattern
  split_ifs with high
  · have one : Sign.negative.toBitVec.toNat = 1 := rfl
    rw [one,Nat.mod_eq_sub_mod high,Nat.mod_eq_of_lt (by omega)]
    omega
  · have zero : Sign.positive.toBitVec.toNat = 0 := rfl
    rw [zero,Nat.mod_eq_of_lt (by omega)]
    omega

theorem parts_of_pattern {s : Sign} {n : Nat}
    (small : n < 2^(spec.exponentBits+spec.mantissaBitsWithoutImplicit)) :
    signOf spec (pattern spec s n) = s ∧
      pattern spec s n%2^(spec.exponentBits+spec.mantissaBitsWithoutImplicit) = n := by
  unfold signOf pattern
  cases s with
  | negative =>
    have one : Sign.negative.toBitVec.toNat = 1 := rfl
    rw [one,Nat.one_mul,Nat.add_mod_left]
    exact ⟨if_pos (Nat.le_add_right _ _),Nat.mod_eq_of_lt small⟩
  | positive =>
    have zero : Sign.positive.toBitVec.toNat = 0 := rfl
    rw [zero,Nat.zero_mul,Nat.zero_add]
    exact ⟨if_neg (Nat.not_le.mpr small),Nat.mod_eq_of_lt small⟩

theorem packComponents_toNat (s : Sign) (e : BitVec spec.exponentBits)
    (m : BitVec spec.mantissaBitsWithoutImplicit) :
    (packComponents spec s e m).toNat =
      pattern spec s (e.toNat*2^spec.mantissaBitsWithoutImplicit+m.toNat) := by
  unfold packComponents pattern
  rw [BitVec.toNat_append,BitVec.toNat_append,← Nat.shiftLeft_add_eq_or_of_lt m.isLt,
    ← Nat.shiftLeft_add_eq_or_of_lt e.isLt,Nat.shiftLeft_eq,Nat.shiftLeft_eq,pow_add]
  ring

theorem unpackSign_packComponents (s : Sign) (e : BitVec spec.exponentBits)
    (m : BitVec spec.mantissaBitsWithoutImplicit) :
    unpackSign (packComponents spec s e m) = s.toBitVec := by
  ext i hi
  obtain rfl : i = 0 := by omega
  simp [unpackSign,packComponents,BitVec.getLsbD_append,BitVec.getElem_append]

theorem ofBitVec_toBitVec (s : Sign) : Sign.ofBitVec s.toBitVec = s := by cases s <;> rfl

/-- The unpacked float is the value of a signed magnitude. -/
inductive Reads (spec : Float.Model.Format) : UnpackedFloat → Sign → Nat → Prop
  | zero (s : Sign) : Reads spec (.zero s) s 0
  | finite {s : Sign} {m k : Nat} (pos : 0 < m) (c : (Format.ofMachine spec).Canonical m k) :
      Reads spec (.finite s m (spec.minExponent+k) pos) s (m+k*2^spec.mantissaBitsWithoutImplicit)

variable {u v : UnpackedFloat} {s t : Sign} {n l : Nat}

theorem Reads.of_parts {m k : Nat} {e : Int} (pos : 0 < m)
    (c : (Format.ofMachine spec).Canonical m k) (he : e = spec.minExponent+k)
    (hn : n = m+k*2^spec.mantissaBitsWithoutImplicit) : Reads spec (.finite s m e pos) s n := by
  subst he hn
  exact .finite pos c

theorem infinity_eq : (Format.ofMachine spec).infinity =
    (2^spec.exponentBits-1)*2^spec.mantissaBitsWithoutImplicit := rfl

theorem packedInfinity_toNat (s : Sign) :
    (packedInfinity spec s).toNat = pattern spec s (Format.ofMachine spec).infinity := by
  rw [packedInfinity,packComponents_toNat,BitVec.neg_one_eq_allOnes,BitVec.toNat_allOnes]
  rfl

/-- What is too large is packed as infinity. -/
theorem pack_reads (wide : 2 ≤ spec.exponentBits) (h : Reads spec u s n) :
    (pack spec u).toNat = pattern spec s (min (Format.ofMachine spec).infinity n) := by
  have exponents : 2^2 ≤ 2^spec.exponentBits := Nat.pow_le_pow_right (by decide) wide
  have fraction := Nat.two_pow_pos spec.mantissaBitsWithoutImplicit
  rw [infinity_eq]
  cases h with
  | zero s =>
    rw [Nat.min_zero]
    exact (packComponents_toNat s 0 0).trans (by simp)
  | @finite _ m k pos c =>
    have below : m < 2*2^spec.mantissaBitsWithoutImplicit := pow_succ' 2 _ ▸ c.below
    have normal : k = 0 ∨ 2^spec.mantissaBitsWithoutImplicit ≤ m := c.normal
    have biased : (spec.minExponent+k+spec.exponentBias+spec.mantissaBitsWithoutImplicit).toNat =
        k+1 := by
      have := @scale_eq spec
      have := @bias_eq spec
      omega
    rw [pack,biased]
    split_ifs with overflow whole
    · have large : 2^spec.mantissaBitsWithoutImplicit ≤ m := normal.resolve_left (by omega)
      have bound := Nat.mul_le_mul_right (2^spec.mantissaBitsWithoutImplicit)
        (show 2^spec.exponentBits-1 ≤ k+1 by omega)
      rw [Nat.succ_mul] at bound
      rw [Nat.min_eq_left (by omega),packedInfinity_toNat,infinity_eq]
    · have large : 2^spec.mantissaBitsWithoutImplicit ≤ m := by
        have binade : m.log2 = spec.mantissaBitsWithoutImplicit := by
          rw [Float.Model.Format.mantissaBits] at whole
          omega
        exact binade ▸ Nat.log2_self_le (by omega)
      have bound := Nat.mul_le_mul_right (2^spec.mantissaBitsWithoutImplicit)
        (show k+2 ≤ 2^spec.exponentBits-1 by omega)
      rw [Nat.add_mul] at bound
      have field : (k+1)%2^spec.exponentBits = k+1 := Nat.mod_eq_of_lt (by omega)
      have rest : m%2^spec.mantissaBitsWithoutImplicit = m-2^spec.mantissaBitsWithoutImplicit := by
        rw [Nat.mod_eq_sub_mod large,Nat.mod_eq_of_lt (by omega)]
      rw [Nat.min_eq_right (by omega),packComponents_toNat,BitVec.toNat_ofNat,BitVec.toNat_ofNat,
        field,rest,Nat.succ_mul]
      congr 1
      omega
    · have small : m < 2^spec.mantissaBitsWithoutImplicit := by
        rw [Float.Model.Format.mantissaBits] at whole
        have binade : m.log2 < spec.mantissaBitsWithoutImplicit+1 :=
          (Nat.log2_lt (by omega)).mpr c.below
        exact (Nat.log2_lt (by omega)).mp (by omega)
      obtain rfl : k = 0 := normal.resolve_right (by omega)
      have bound := Nat.mul_le_mul_right (2^spec.mantissaBitsWithoutImplicit)
        (show 1 ≤ 2^spec.exponentBits-1 by omega)
      have mantissa : (BitVec.ofNat spec.mantissaBitsWithoutImplicit m).toNat = m :=
        Nat.mod_eq_of_lt small
      rw [Nat.min_eq_right (by omega),packComponents_toNat,mantissa]
      simp

/-- The value of the bits of a magnitude below infinity. -/
theorem unpack_reads {b : BitVec spec.numBits} (bits : b.toNat = pattern spec s n)
    (finite : n < (Format.ofMachine spec).infinity) : Reads spec (unpack spec b) s n := by
  set f := 2^spec.mantissaBitsWithoutImplicit with hf
  have fraction : 0 < f := Nat.two_pow_pos _
  have rest := Nat.mod_lt n fraction
  have parts := Nat.div_add_mod' n f
  have field : n/f < 2^spec.exponentBits-1 := (Nat.div_lt_iff_lt_mul fraction).mpr finite
  have exponent : (BitVec.ofNat spec.exponentBits (n/f)).toNat = n/f :=
    Nat.mod_eq_of_lt (Nat.lt_of_lt_of_le field (Nat.sub_le _ _))
  have mantissa : (BitVec.ofNat spec.mantissaBitsWithoutImplicit (n%f)).toNat = n%f :=
    Nat.mod_eq_of_lt rest
  have packed : b = packComponents spec s (BitVec.ofNat _ (n/f)) (BitVec.ofNat _ (n%f)) := by
    apply BitVec.eq_of_toNat_eq
    rw [bits,packComponents_toNat,exponent,mantissa,parts]
  have infinite : ¬BitVec.ofNat spec.exponentBits (n/f) = -1#_ := by
    rw [← BitVec.toNat_inj,exponent,BitVec.neg_one_eq_allOnes,BitVec.toNat_allOnes]
    omega
  have low : BitVec.ofNat spec.exponentBits (n/f) = 0#_ ↔ n/f = 0 := by
    rw [← BitVec.toNat_inj,exponent,BitVec.toNat_zero]
  have none : BitVec.ofNat spec.mantissaBitsWithoutImplicit (n%f) = 0#_ ↔ n%f = 0 := by
    rw [← BitVec.toNat_inj,mantissa,BitVec.toNat_zero]
  have scale := @scale_eq spec
  have bias := @bias_eq spec
  subst packed
  unfold unpack
  simp only [unpackExponent_packComponents,unpackMantissa_packComponents,unpackSign_packComponents,
    ofBitVec_toBitVec,if_neg infinite,low,none,mantissa,exponent]
  split_ifs with subnormal zero
  · obtain rfl : n = 0 := by
      rw [← parts,subnormal,zero,Nat.zero_mul]
    exact .zero s
  · rw [subnormal,Nat.zero_mul,Nat.zero_add] at parts
    have c : (Format.ofMachine spec).Canonical (n%f) 0 :=
      ⟨Nat.lt_of_lt_of_le rest (Nat.pow_le_pow_right (by decide) (Nat.le_succ _)),.inl rfl⟩
    apply Reads.of_parts _ c
    · rw [subnormal]
      omega
    · rw [parts,Nat.zero_mul,Nat.add_zero]
  · have whole : (1#1 ++ BitVec.ofNat spec.mantissaBitsWithoutImplicit (n%f)).toNat = f+n%f := by
      rw [BitVec.toNat_append,← Nat.shiftLeft_add_eq_or_of_lt (BitVec.isLt _),mantissa,
        Nat.shiftLeft_eq]
      simp [hf]
    have c : (Format.ofMachine spec).Canonical (f+n%f) (n/f-1) := by
      refine ⟨?_,.inr (Nat.le_add_right _ _)⟩
      have double : 2^((Format.ofMachine spec).fraction+1) = 2*f := pow_succ' _ _
      omega
    apply Reads.of_parts _ (whole.symm ▸ c)
    · omega
    · rw [whole,← hf]
      obtain ⟨k,hk⟩ := Nat.exists_eq_add_of_lt (Nat.pos_of_ne_zero subnormal)
      rw [hk,Nat.zero_add,Nat.add_sub_cancel]
      rw [hk,Nat.zero_add,Nat.succ_mul] at parts
      omega

theorem unpack_infinity {b : BitVec spec.numBits}
    (bits : b.toNat = pattern spec s (Format.ofMachine spec).infinity) :
    unpack spec b = .infinity s := by
  obtain rfl : b = packedInfinity spec s :=
    BitVec.eq_of_toNat_eq (bits.trans (packedInfinity_toNat s).symm)
  unfold unpack packedInfinity
  simp only [unpackExponent_packComponents,unpackMantissa_packComponents,unpackSign_packComponents,
    ofBitVec_toBitVec]
  rfl

end Machine

end GlobeBins

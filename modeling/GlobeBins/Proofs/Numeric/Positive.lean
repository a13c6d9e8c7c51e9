import GlobeBins.Proofs.Numeric.Decimal
import GlobeBins.Proofs.Numeric.Singles

namespace GlobeBins

open Float.Model (UnpackedFloat totalExponent)
open Float.Model.UnpackedFloat
open Machine (Reads)

namespace Machine

variable {spec : Float.Model.Format} {u v : UnpackedFloat} {s t : Sign} {n : Nat}

theorem log2_le_sqrt (n : Nat) : n.log2 ≤ 2*n.sqrt.log2+1 := by
  by_cases zero : n = 0
  · simp [zero]
  have root : n.sqrt+1 ≤ 2^(n.sqrt.log2+1) := Nat.lt_log2_self
  have square : n < 2^(2*n.sqrt.log2+2) := by
    calc n < (n.sqrt+1)*(n.sqrt+1) := Nat.lt_succ_sqrt n
      _ ≤ 2^(n.sqrt.log2+1)*2^(n.sqrt.log2+1) := Nat.mul_le_mul root root
      _ = 2^(2*n.sqrt.log2+2) := by
        rw [← pow_add]
        congr 1
        omega
  have := (Nat.log2_lt zero).mpr square
  omega

/-- Whether the rest of a root is below its half or above it. -/
theorem accuracy_sqrt (n : Nat) : ∃ q,n.sqrt = q/4 ∧
    (if n-n.sqrt*n.sqrt = 0 then Accuracy.exact
      else .inexact (if n-n.sqrt*n.sqrt ≤ n.sqrt then .lt else .gt)) =
        accuracyOfFraction (q%4) 4 := by
  obtain ⟨c,small,same⟩ : ∃ c < 4,(if n-n.sqrt*n.sqrt = 0 then Accuracy.exact
      else .inexact (if n-n.sqrt*n.sqrt ≤ n.sqrt then .lt else .gt)) = accuracyOfFraction c 4 := by
    split_ifs
    · exact ⟨0,by decide,rfl⟩
    · exact ⟨1,by decide,rfl⟩
    · exact ⟨3,by decide,rfl⟩
  have rest : (4*n.sqrt+c)%4 = c := by omega
  exact ⟨4*n.sqrt+c,by omega,by rw [rest,same]⟩

/-- Roots of positive numbers are positive, where even the root of the least number is normal. -/
theorem sqrt_reads (wide : 2*spec.mantissaBitsWithoutImplicit+2 ≤ (Format.ofMachine spec).scale)
    (h : Reads spec u .positive n) (pos : 0 < n) :
    ∃ m,Reads spec (sqrt spec u) .positive m ∧ 0 < m := by
  have scale := @scale_eq spec
  have fraction := Nat.two_pow_pos spec.mantissaBitsWithoutImplicit
  cases h with
  | zero => exact absurd pos (Nat.lt_irrefl 0)
  | @finite _ m k some c =>
    set e := spec.minExponent+(k : Int) with he
    set target := min (e.ediv 2) (spec.targetExponent ((totalExponent m e+1).ediv 2)) with htarget
    have halves : target = min (e/2) (spec.targetExponent ((totalExponent m e+1)/2)) := htarget
    obtain ⟨a,ha⟩ := Int.eq_ofNat_of_zero_le (show 0 ≤ e-2*target by omega)
    have amount : (e-2*target).toNat = a := by omega
    obtain ⟨q,root,accuracy⟩ := accuracy_sqrt (m*2^a)
    have core : sqrtCore spec m e = (q/4,target,accuracyOfFraction (q%4) 4) := by
      rw [sqrtCore,← htarget]
      simp only [amount,Nat.shiftLeft_eq]
      rw [accuracy,root]
    have binade : m.log2+a ≤ 2*(q/4).log2+1 := by
      have := log2_le_sqrt (m*2^a)
      rwa [root,← Nat.shiftLeft_eq,Format.log2_shiftLeft (by omega)] at this
    set K := ((q/4).log2+(target-spec.minExponent)-spec.mantissaBitsWithoutImplicit : Int).toNat
      with hK
    have normal : 0 < K := by omega
    have room : target-spec.minExponent ≤ K := by
      unfold Float.Model.Format.targetExponent totalExponent Float.Model.Format.mantissaBits at halves
      omega
    have step := @roundWithAccuracy_reads spec q 4 _ K (by decide) hK room .positive
    have rounded : sqrt spec (.finite .positive m e some) =
        roundWithAccuracy spec .positive (q/4) target (accuracyOfFraction (q%4) 4) := by
      simp only [sqrt,core]
    rw [add_sub_cancel,← rounded] at step
    exact ⟨_,step,Nat.add_pos_right _ (Nat.mul_pos normal fraction)⟩

theorem add_infinity (h : Reads spec v t n) :
    add spec (.infinity s) v = .infinity s ∧ add spec v (.infinity s) = .infinity s := by
  cases h <;> exact ⟨rfl,rfl⟩

end Machine

theorem Binary64.zero_le_iff {x : Binary64} : 0 ≤ x ↔ x.isNaN = false ∧ 0 ≤ x.key := by
  have number : isNaN 0 = false := by decide
  have zero : key 0 = 0 := by decide
  change lessEq 0 x = true ↔ _
  rw [lessEq,number,zero]
  simp

namespace Binary32

variable {x y : Binary32}

theorem zero_lt_iff : 0 < x ↔ x.isNaN = false ∧ 0 < x.key :=
  ⟨fun h => ⟨(not_isNaN_of_lt h).2,(lt_iff_key rfl (not_isNaN_of_lt h).2).mp h⟩,
    fun h => (lt_iff_key rfl h.1).mpr h.2⟩

theorem zero_le_iff : 0 ≤ x ↔ x.isNaN = false ∧ 0 ≤ x.key :=
  ⟨fun h => ⟨(not_isNaN_of_le h).2,(le_iff_key rfl (not_isNaN_of_le h).2).mp h⟩,
    fun h => (le_iff_key rfl h.1).mpr h.2⟩

theorem sign_of_key (h : 0 < x.key) : x.sign = .positive ∧ 0 < x.magnitude := by
  rw [key_eq] at h
  cases sign : x.sign <;> rw [sign] at h <;> simp only [Sign.apply] at h
  · omega
  · exact ⟨rfl,by omega⟩

theorem zero_lt_of_magnitude (sign : x.sign = .positive) (least : 0 < x.magnitude)
    (most : x.magnitude ≤ Format.single.infinity) : 0 < x := by
  rw [zero_lt_iff,key_eq,sign]
  exact ⟨by simpa [isNaN] using most,by simpa only [Sign.apply,Int.natCast_pos] using least⟩

theorem toFloat_infinity (h : x.magnitude = Format.single.infinity) :
    x.toFloat.toModel.unpack = .infinity x.sign := by
  have first : unpack .binary32 x.bits.toBitVec = .infinity x.sign := by
    apply Machine.unpack_infinity
    exact bits_pattern.trans (by rw [h,single_eq])
  apply Machine.unpack_infinity
  change (pack .binary32 (unpack .binary32 x.bits.toBitVec)).toNat = _
  rw [first]
  exact Machine.packedInfinity_toNat x.sign

/-- The machine has only infinity beside the finite ones. -/
theorem finite_or_infinity (h : 0 ≤ x) : x.isFinite = true ∨
    x.key = infinity.key ∧ x.toFloat.toModel.unpack = .infinity .positive := by
  obtain ⟨number,least⟩ := zero_le_iff.mp h
  simp only [isNaN,decide_eq_false_iff_not] at number
  by_cases finite : x.magnitude < Format.single.infinity
  · exact .inl (isFinite_iff.mpr finite)
  · have most : x.magnitude = Format.single.infinity := by omega
    have large : 0 < Format.single.infinity := by decide
    have positive : x.sign = .positive := by
      rw [key_eq,most] at least
      cases sign : x.sign with
      | negative =>
        rw [sign] at least
        simp only [Sign.apply] at least
        omega
      | positive => rfl
    refine .inr ⟨?_,positive ▸ toFloat_infinity most⟩
    rw [key_eq,positive,most]
    rfl

theorem of_infinity (packed : x = ofFloat (.ofModel (Float32.Model.pack (.infinity .positive)))) :
    x = infinity := by
  obtain ⟨sign,magnitude⟩ : x.sign = .positive ∧ x.magnitude = Format.single.infinity := by
    rw [packed]
    exact of_pattern (Machine.packedInfinity_toNat .positive) (Nat.le_refl _)
  have key : x.key = infinity.key := by
    rw [key_eq,sign,magnitude]
    rfl
  exact eq_of_key key (by rw [key]; decide)

theorem sqrt_pos (h : 0 < x) : 0 < x.sqrt := by
  obtain finite | ⟨_,infinite⟩ := finite_or_infinity (le_of_lt h)
  · obtain ⟨sign,least⟩ := sign_of_key (zero_lt_iff.mp h).2
    have reads := toFloat_reads finite
    rw [sign] at reads
    obtain ⟨m,root,positive⟩ := Machine.sqrt_reads (by decide) reads least
    have packed := ofFloat_pack root
    change x.sqrt.sign = .positive ∧ x.sqrt.magnitude = _ at packed
    apply zero_lt_of_magnitude packed.1
    · rw [packed.2]
      exact Nat.lt_min.mpr ⟨by decide,positive⟩
    · rw [packed.2]
      exact Nat.min_le_left _ _
  · have same : x.sqrt = infinity := by
      apply of_infinity
      rw [sqrt,Float32.sqrt,Float32.Model.sqrt,infinite]
      rfl
    rw [same]
    decide

theorem nearest_units (h : x.isFinite = true) : Format.single.nearest x.units = x.key := by
  rw [units,Machine.nearest_units,Nat.min_eq_right (isFinite_iff.mp h).le,key_eq]

theorem units_of_zero (h : x.key = 0) : x.units = 0 := by
  have none : x.magnitude = 0 := by
    rw [key_eq] at h
    cases sign : x.sign <;> rw [sign] at h <;> simp only [Sign.apply] at h <;> omega
  rw [units,none]
  cases x.sign <;> rfl

theorem units_nonneg (h : 0 ≤ x.key) : 0 ≤ x.units := by
  obtain zero | above := h.eq_or_lt
  · rw [units_of_zero zero.symm]
  · rw [units,(sign_of_key above).1]
    exact Int.natCast_nonneg _

/-- A sum with infinity is infinity. -/
theorem finite_or_sum (hx : 0 ≤ x) (hy : 0 ≤ y) : x.isFinite = true ∧ y.isFinite = true ∨
    x+y = infinity ∧ (x.key = infinity.key ∨ y.key = infinity.key) := by
  have infinite (sum : add .binary32 x.toFloat.toModel.unpack y.toFloat.toModel.unpack =
      .infinity .positive) : x+y = infinity := by
    apply of_infinity
    change ofFloat (.ofModel (Float32.Model.pack (add .binary32 x.toFloat.toModel.unpack
      y.toFloat.toModel.unpack))) = _
    rw [sum]
  obtain finite | ⟨most,value⟩ := finite_or_infinity hx
  · obtain finite' | ⟨most,value⟩ := finite_or_infinity hy
    · exact .inl ⟨finite,finite'⟩
    · exact .inr ⟨infinite (value ▸ (Machine.add_infinity (toFloat_reads finite)).2),.inr most⟩
  · refine .inr ⟨infinite ?_,.inl most⟩
    obtain finite' | ⟨_,value'⟩ := finite_or_infinity hy
    · exact value ▸ (Machine.add_infinity (toFloat_reads finite')).1
    · rw [value,value']
      rfl

/-- A sum is at least each of two singles that are not negative, and with two zeros it is zero. -/
theorem add_key (hx : 0 ≤ x) (hy : 0 ≤ y) : (x+y).isNaN = false ∧ x.key ≤ (x+y).key ∧
    y.key ≤ (x+y).key ∧ (x.key = 0 → y.key = 0 → (x+y).key = 0) := by
  obtain ⟨number,least⟩ := zero_le_iff.mp hx
  obtain ⟨number',least'⟩ := zero_le_iff.mp hy
  obtain ⟨finite,finite'⟩ | ⟨same,infinite⟩ := finite_or_sum hx hy
  · obtain ⟨magnitude,key⟩ := key_add finite finite'
    have forward := units_nonneg least
    have forward' := units_nonneg least'
    rw [key]
    refine ⟨by simpa [isNaN] using magnitude,?_,?_,fun zero zero' => ?_⟩
    · rw [← nearest_units finite]
      exact Format.nearest_mono (by omega)
    · rw [← nearest_units finite']
      exact Format.nearest_mono (by omega)
    · rw [units_of_zero zero,Int.zero_add,nearest_units finite',zero']
  · have large : infinity.key ≠ 0 := by decide
    rw [same]
    exact ⟨rfl,(key_of_number number).2,(key_of_number number').2,fun zero zero' => by omega⟩

/-- Some singles that are not negative have a sum that is not, and it is positive if one of them is. -/
theorem zero_lt_sum {xs : List Binary32} (nonneg : ∀ x ∈ xs,0 ≤ x) :
    0 ≤ xs.foldl (·+·) 0 ∧ (0 < xs.foldl (·+·) 0 ↔ ∃ x ∈ xs,0 < x) := by
  induction xs using List.reverseRecOn with
  | nil =>
    have none : ¬(0 : Binary32) < 0 := less_irrefl 0
    exact ⟨zero_le_iff.mpr ⟨rfl,Int.le_refl 0⟩,by simpa using none⟩
  | append_singleton xs x ih =>
    obtain ⟨rest,own⟩ := List.forall_mem_append.mp nonneg
    have last := own x (List.mem_singleton_self x)
    obtain ⟨sum,positive⟩ := ih rest
    obtain ⟨number,above,above',zero⟩ := add_key sum last
    have some : (∃ y ∈ xs++[x],0 < y) ↔ (∃ y ∈ xs,0 < y) ∨ 0 < x := by
      simp only [List.mem_append,List.mem_singleton,or_and_right,exists_or,exists_eq_left]
    rw [List.foldl_append,List.foldl_cons,List.foldl_nil,some,← positive]
    obtain ⟨first,least⟩ := zero_le_iff.mp sum
    obtain ⟨second,least'⟩ := zero_le_iff.mp last
    rw [zero_le_iff,zero_lt_iff,zero_lt_iff,zero_lt_iff,number,first,second]
    simp only [true_and]
    omega

theorem ofMagnitude_parts (negative : Bool) {n : Nat} (small : n < 2^31) :
    (ofMagnitude negative n).magnitude = n ∧ (ofMagnitude negative n).isNegative = negative := by
  rw [magnitude_eq,Bool.eq_iff_iff,isNegative_iff,bits_ofMagnitude negative small]
  cases negative with
  | false =>
    rw [if_neg Bool.false_ne_true,Nat.zero_add]
    exact ⟨Nat.mod_eq_of_lt small,by simp [small]⟩
  | true =>
    rw [if_pos rfl,Nat.add_mod_left]
    exact ⟨Nat.mod_eq_of_lt small,by simp⟩

/-- What is not negative as a double is not negative as a single, though it can be too small for one. -/
theorem ofDouble_key {x : Binary64} (h : 0 ≤ x) : (ofDouble x).isNaN = false ∧ (ofDouble x).key =
    Format.single.round (Format.double.units x.magnitude) (1 <<< Format.double.scale) := by
  obtain ⟨number,least⟩ := Binary64.zero_le_iff.mp h
  have most := Format.round_le_infinity .single (Format.double.units x.magnitude)
    (1 <<< Format.double.scale)
  obtain ⟨magnitude,sign⟩ :=
    ofMagnitude_parts x.isNegative (Nat.lt_of_le_of_lt most (by decide))
  rw [ofDouble,number,if_neg Bool.false_ne_true,isNaN,magnitude,key,magnitude,sign]
  refine ⟨decide_eq_false (Nat.not_lt.mpr most),?_⟩
  split_ifs with negative
  · -- minus zero
    have zero : x.magnitude = 0 := by
      rw [Binary64.key,if_pos negative] at least
      omega
    rw [zero]
    rfl
  · rfl

theorem ofDouble_nonneg {x : Binary64} (h : 0 ≤ x) : 0 ≤ ofDouble x := by
  obtain ⟨number,key⟩ := ofDouble_key h
  rw [zero_le_iff,number,key]
  exact ⟨rfl,Int.natCast_nonneg _⟩

theorem ofNat_pos {n : Nat} (pos : 0 < n) : 0 < ofNat n := by
  obtain ⟨_,magnitude⟩ := ofNat_eq n
  have most := Format.round_le_infinity .single n 1
  have least : (ofNat 1).key ≤ (ofNat n).key := key_ofNat_mono pos
  have one : 0 < (ofNat 1).key := by decide
  rw [zero_lt_iff,isNaN,magnitude]
  exact ⟨decide_eq_false (Nat.not_lt.mpr most),by omega⟩

/-- Counts are not too small for a single. -/
theorem ofDouble_pos {n : Nat} (pos : 0 < n) : 0 < ofDouble (.ofInt n) := by
  have same : Binary64.ofInt n = Binary64.ofNat n := by
    simp [Binary64.ofInt,Binary64.ofNat,show ¬(n : Int) < 0 by omega]
  obtain ⟨sign,magnitude⟩ := Binary64.ofNat_eq n
  have most := Format.round_le_infinity .double n 1
  have nonneg : 0 ≤ Binary64.ofNat n := by
    rw [Binary64.zero_le_iff,Binary64.key_eq,Binary64.isNaN,sign,magnitude]
    exact ⟨decide_eq_false (Nat.not_lt.mpr most),Int.natCast_nonneg _⟩
  obtain ⟨number,key⟩ := ofDouble_key nonneg
  have least : Format.double.units (Format.double.round 1 1) ≤
      Format.double.units (Format.double.round n 1) :=
    Format.units_le.mpr (Format.round_mono Nat.one_pos Nat.one_pos (by omega))
  have scale : 0 < 1 <<< Format.double.scale := by decide +kernel
  have one : 0 < Format.single.round (Format.double.units (Format.double.round 1 1))
      (1 <<< Format.double.scale) := by decide +kernel
  have above := Format.round_mono (F := .single) scale scale (Nat.mul_le_mul_right _ least)
  rw [same,zero_lt_iff,number,key,magnitude]
  exact ⟨rfl,by omega⟩

end Binary32

end GlobeBins

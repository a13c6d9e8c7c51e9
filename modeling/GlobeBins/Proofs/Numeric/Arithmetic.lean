import GlobeBins.Proofs.Numeric.Machine

namespace GlobeBins.Machine

open Float.Model (UnpackedFloat totalExponent)
open Float.Model.UnpackedFloat
open Format (nearestEven)

section

variable {em : ExtendedMantissa} {n d : Nat}

/-- A whole part with two bits, whether the rest is at least a half and whether it goes beyond. -/
structure Represents (em : ExtendedMantissa) (n d : Nat) : Prop where
  mantissa : em.mantissa = n/d
  half : em.roundBit = decide (d ≤ 2*(n%d))
  beyond : em.stickyBit = decide (2*(n%d)%d ≠ 0)

theorem represents_fraction (pos : 0 < d) :
    Represents (.ofMantissaAndAccuracy (n/d) (accuracyOfFraction (n%d) d)) n d := by
  have rest := Nat.mod_lt n pos
  unfold accuracyOfFraction
  by_cases whole : n%d = 0
  · rw [if_pos whole]
    exact ⟨rfl,(decide_eq_false (by omega)).symm,(decide_eq_false (by simp [whole])).symm⟩
  · rw [if_neg whole]
    cases order : compare (2*(n%d)) d with
    | lt =>
      have low := Nat.compare_eq_lt.mp order
      have same : 2*(n%d)%d = 2*(n%d) := Nat.mod_eq_of_lt low
      exact ⟨rfl,(decide_eq_false (by omega)).symm,(decide_eq_true (by omega)).symm⟩
    | eq =>
      have middle := Nat.compare_eq_eq.mp order
      have none : 2*(n%d)%d = 0 := by rw [middle,Nat.mod_self]
      exact ⟨rfl,(decide_eq_true (by omega)).symm,(decide_eq_false (by omega)).symm⟩
    | gt =>
      have high := Nat.compare_eq_gt.mp order
      have excess : 2*(n%d)%d = 2*(n%d)-d := by
        rw [Nat.mod_eq_sub_mod (by omega),Nat.mod_eq_of_lt (by omega)]
      exact ⟨rfl,(decide_eq_true (by omega)).symm,(decide_eq_true (by omega)).symm⟩

/-- One bit less halves the quotient. -/
theorem Represents.shiftRightOne (h : Represents em n d) (pos : 0 < d) :
    Represents em.shiftRightOne n (d*2) := by
  have rest := Nat.mod_lt n pos
  have parts : n%(d*2) = n%d+d*(n/d%2) := Nat.mod_mul
  refine ⟨?_,?_,?_⟩
  · rw [ExtendedMantissa.shiftRightOne,h.mantissa,Nat.div_div_eq_div_mul]
  · rw [ExtendedMantissa.shiftRightOne,h.mantissa,parts]
    rcases Nat.mod_two_eq_zero_or_one (n/d) with even | odd
    · rw [even,Nat.mul_zero,Nat.add_zero]
      exact (decide_eq_false (by omega)).symm
    · rw [odd,Nat.mul_one]
      exact (decide_eq_true (by omega)).symm
  · have excess : 2*(n%(d*2))%(d*2) = 2*(n%d) := by
      have sum : 2*(n%(d*2)) = 2*(n%d)+d*2*(n/d%2) := by
        rw [parts]
        ring
      rw [sum,Nat.add_mul_mod_self_left,Nat.mod_eq_of_lt (by omega)]
    rw [ExtendedMantissa.shiftRightOne,h.half,h.beyond,excess,Bool.eq_iff_iff]
    simp only [Bool.or_eq_true,decide_eq_true_eq]
    constructor
    · intro some none
      have zero : n%d = 0 := by omega
      rw [zero] at some
      simp at some
      omega
    · intro some
      by_cases low : 2*(n%d) < d
      · rw [Nat.mod_eq_of_lt low]
        exact .inr some
      · exact .inl (Nat.not_lt.mp low)

theorem Represents.shift (h : Represents em n d) (pos : 0 < d) (t : Nat) :
    Represents (em >>> t) n (d*2^t) := by
  induction t with
  | zero =>
    rw [pow_zero,Nat.mul_one]
    exact h
  | succ t ih =>
    rw [pow_succ,← Nat.mul_assoc]
    exact ih.shiftRightOne (Nat.mul_pos pos (Nat.two_pow_pos t))

theorem Represents.rounded (h : Represents em n d) (pos : 0 < d) :
    em.roundedMantissa = nearestEven n d := by
  obtain ⟨mantissa,half,beyond⟩ := em
  obtain ⟨rfl,rfl,rfl⟩ := h
  have rest := Nat.mod_lt n pos
  unfold nearestEven ExtendedMantissa.roundedMantissa
  simp only
  by_cases low : 2*(n%d) < d
  · rw [if_pos low,decide_eq_false (Nat.not_le.mpr low)]
    by_cases some : 2*(n%d)%d ≠ 0
    · rw [decide_eq_true some]
      rfl
    · rw [decide_eq_false some]
      rfl
  · rw [if_neg low,decide_eq_true (Nat.not_lt.mp low)]
    have excess : 2*(n%d)%d = 2*(n%d)-d := by
      rw [Nat.mod_eq_sub_mod (by omega),Nat.mod_eq_of_lt (by omega)]
    rw [excess]
    by_cases high : d < 2*(n%d)
    · rw [if_pos high,decide_eq_true (by omega)]
      rfl
    · rw [if_neg high,decide_eq_false (by omega)]
      rfl

end

variable {spec : Float.Model.Format} {u v : UnpackedFloat} {s t : Sign} {n l d : Nat}

theorem targetExponent_eq (m : Nat) (k : Int) :
    spec.targetExponent (totalExponent m (spec.minExponent+k)) =
      spec.minExponent+((m.log2+k-spec.mantissaBitsWithoutImplicit).toNat : Nat) := by
  unfold Float.Model.Format.targetExponent totalExponent Float.Model.Format.mantissaBits
  omega

theorem shiftToExponent_eq {m : Nat} {e target : Int} {a : Accuracy} (room : e ≤ target) :
    shiftToExponent m e a target =
      (ExtendedMantissa.ofMantissaAndAccuracy m a >>> (target-e).toNat,target) := by
  unfold shiftToExponent
  simp only [Prod.mk.injEq,true_and]
  omega

/-- A mantissa that is one too large for the format is halved, which is exact. -/
theorem carry_reads {r K : Nat} (bound : r ≤ 2^(spec.mantissaBitsWithoutImplicit+1))
    (normal : K = 0 ∨ 2^spec.mantissaBitsWithoutImplicit ≤ r) (s : Sign) {em : ExtendedMantissa}
    {e : Int} (shifted : shiftToTargetExponent spec r (spec.minExponent+K) .exact = (em,e)) :
    Reads spec (if h : em.mantissa = 0 then .zero s
        else .finite s em.mantissa e (Nat.pos_of_ne_zero h)) s
      (r+K*2^spec.mantissaBitsWithoutImplicit) := by
  have fraction := Nat.two_pow_pos spec.mantissaBitsWithoutImplicit
  unfold shiftToTargetExponent at shifted
  rw [targetExponent_eq] at shifted
  rcases Nat.lt_or_eq_of_le bound with below | rfl
  · have binade : r.log2 ≤ spec.mantissaBitsWithoutImplicit := by
      by_cases zero : r = 0
      · simp [zero]
      · have := (Nat.log2_lt zero).mpr below
        omega
    have none : (spec.minExponent+((r.log2+K-spec.mantissaBitsWithoutImplicit : Int).toNat : Nat)-
        (spec.minExponent+K)).toNat = 0 := by omega
    simp only [shiftToExponent,none] at shifted
    obtain ⟨rfl,rfl⟩ := Prod.mk.inj shifted
    change Reads spec (if h : r = 0 then .zero s else .finite s r _ (Nat.pos_of_ne_zero h)) s _
    by_cases zero : r = 0
    · obtain rfl : K = 0 := normal.resolve_right (by omega)
      rw [dif_pos zero,zero,Nat.zero_mul]
      exact .zero s
    · rw [dif_neg zero]
      exact .of_parts _ ⟨below,normal⟩ (by simp) rfl
  · have one : (spec.minExponent+(((2^(spec.mantissaBitsWithoutImplicit+1)).log2+K-
        spec.mantissaBitsWithoutImplicit : Int).toNat : Nat)-(spec.minExponent+K)).toNat = 1 := by
      rw [Nat.log2_two_pow]
      omega
    have half : 2^(spec.mantissaBitsWithoutImplicit+1)/2 = 2^spec.mantissaBitsWithoutImplicit := by
      rw [pow_succ,Nat.mul_div_cancel _ (by decide)]
    simp only [shiftToExponent,one] at shifted
    obtain ⟨rfl,rfl⟩ := Prod.mk.inj shifted
    change Reads spec (if h : 2^(spec.mantissaBitsWithoutImplicit+1)/2 = 0 then .zero s
      else .finite s (2^(spec.mantissaBitsWithoutImplicit+1)/2) _ (Nat.pos_of_ne_zero h)) s _
    have c : (Format.ofMachine spec).Canonical (2^spec.mantissaBitsWithoutImplicit) (K+1) :=
      ⟨Nat.pow_lt_pow_right (by decide) (Nat.lt_succ_self _),.inr (Nat.le_refl _)⟩
    rw [dif_neg (by omega)]
    apply Reads.of_parts _ (half.symm ▸ c)
    · push_cast
      ring
    · rw [half]
      ring

/-- Where a quotient and its exponent lie in the format. -/
theorem rounded_bounds {k : Int} {K : Nat} (pos : 0 < d)
    (hK : K = ((n/d).log2+k-spec.mantissaBitsWithoutImplicit).toNat) (room : k ≤ K) :
    nearestEven n (d*2^(K-k).toNat) ≤ 2^(spec.mantissaBitsWithoutImplicit+1) ∧
      (K = 0 ∨ 2^spec.mantissaBitsWithoutImplicit ≤ nearestEven n (d*2^(K-k).toNat)) := by
  have fraction := spec.hm
  have scaled : 0 < d*2^(K-k).toNat := Nat.mul_pos pos (Nat.two_pow_pos _)
  constructor
  · rw [← Format.nearestEven_one (2^(spec.mantissaBitsWithoutImplicit+1))]
    apply Format.nearestEven_mono scaled Nat.one_pos
    have quotient : n/d < 2^((K-k).toNat+(spec.mantissaBitsWithoutImplicit+1)) :=
      Nat.lt_of_lt_of_le Nat.lt_log2_self (Nat.pow_le_pow_right (by decide) (by omega))
    have := (Nat.div_lt_iff_lt_mul pos).mp quotient
    rw [pow_add] at this
    linarith
  · by_cases low : K = 0
    · exact .inl low
    · right
      conv_lhs => rw [← Format.nearestEven_one (2^spec.mantissaBitsWithoutImplicit)]
      apply Format.nearestEven_mono Nat.one_pos scaled
      have ne : n/d ≠ 0 := by
        intro zero
        rw [zero,Nat.log2_zero] at hK
        omega
      have quotient : 2^((K-k).toNat+spec.mantissaBitsWithoutImplicit) ≤ n/d :=
        (Nat.pow_le_pow_right (by decide) (by omega)).trans (Nat.log2_self_le ne)
      have := (Nat.le_div_iff_mul_le pos).mp quotient
      rw [pow_add] at this
      linarith

/-- The machine rounds a quotient as the format has it. -/
theorem roundWithAccuracy_reads {k : Int} {K : Nat} (pos : 0 < d)
    (hK : K = ((n/d).log2+k-spec.mantissaBitsWithoutImplicit).toNat) (room : k ≤ K) (s : Sign) :
    Reads spec (roundWithAccuracy spec s (n/d) (spec.minExponent+k) (accuracyOfFraction (n%d) d)) s
      (nearestEven n (d*2^(K-k).toNat)+K*2^spec.mantissaBitsWithoutImplicit) := by
  have first : shiftToTargetExponent spec (n/d) (spec.minExponent+k)
      (accuracyOfFraction (n%d) d) = (ExtendedMantissa.ofMantissaAndAccuracy (n/d)
        (accuracyOfFraction (n%d) d) >>> (K-k).toNat,spec.minExponent+K) := by
    have amount : spec.minExponent+K-(spec.minExponent+k) = K-k := by ring
    rw [shiftToTargetExponent,targetExponent_eq,← hK,shiftToExponent_eq (by omega),amount]
  have rounded := ((@represents_fraction n d pos).shift pos (K-k).toNat).rounded
    (Nat.mul_pos pos (Nat.two_pow_pos _))
  obtain ⟨bound,normal⟩ := @rounded_bounds spec n d k K pos hK room
  unfold roundWithAccuracy
  rw [first]
  simp only [rounded]
  exact carry_reads bound normal s rfl

theorem round_reads {m : Nat} (pos : 0 < m) (k : Nat) (s : Sign) : ∃ n,
    Reads spec (UnpackedFloat.round spec s m (spec.minExponent+k)) s n ∧
      min (Format.ofMachine spec).infinity n =
        (Format.ofMachine spec).round (m*2^k) (1 <<< (Format.ofMachine spec).scale) := by
  have fraction : (Format.ofMachine spec).fraction = spec.mantissaBitsWithoutImplicit := rfl
  set K := (m.log2+k-spec.mantissaBitsWithoutImplicit : Int).toNat with hK
  obtain ⟨a,b,K',parts,shift,none⟩ : ∃ a b K',k = a+b ∧ K = b+K' ∧ (a = 0 ∨ K' = 0) :=
    ⟨k-K,k-(k-K),K-k,by omega,by omega,by omega⟩
  have decreased : decreaseExponent m (spec.minExponent+k) (spec.minExponent+K) =
      (m*2^a,spec.minExponent+b) := by
    have amount : (spec.minExponent+k-(spec.minExponent+K)).toNat = a := by omega
    simp only [decreaseExponent,amount,Nat.shiftLeft_eq,Prod.mk.injEq,true_and]
    omega
  have binade : (m*2^a).log2 = m.log2+a := by
    rw [← Nat.shiftLeft_eq,Format.log2_shiftLeft (by omega)]
  have step := @roundWithAccuracy_reads spec (m*2^a) 1 b K Nat.one_pos
    (by rw [Nat.div_one,binade]; omega) (by omega) s
  have amount : ((K : Int)-b).toNat = K' := by omega
  rw [Nat.div_one,Nat.mod_one,amount,Nat.one_mul] at step
  refine ⟨nearestEven (m*2^a) (2^K')+K*2^spec.mantissaBitsWithoutImplicit,?_,?_⟩
  · rw [UnpackedFloat.round,targetExponent_eq,← hK,decreased]
    exact step
  · have exponent : (m*2^k).log2-(Format.ofMachine spec).fraction = K := by
      rw [← Nat.shiftLeft_eq,Format.log2_shiftLeft (by omega),fraction]
      omega
    rw [Format.round_eq,exponent,parts,shift,pow_add,pow_add,← Nat.mul_assoc,Nat.mul_comm (2^b),
      Format.nearestEven_scale (Nat.two_pow_pos b),fraction]

theorem nearest_apply {F : Format} (s : Sign) (u : Nat) :
    F.nearest (s.apply u) = s.apply (F.round u (1 <<< F.scale)) := by
  have none : F.round 0 (1 <<< F.scale) = 0 := by
    have zero : F.units 0 = 0 := by simp [Format.units]
    rw [← zero,Format.round_units,zero,Nat.min_zero]
  cases s with
  | positive => exact if_neg (Int.not_lt.mpr (Int.natCast_nonneg u))
  | negative =>
    by_cases zero : u = 0
    · subst zero
      simp [Format.nearest,Sign.apply,none]
    · have below : Sign.negative.apply u < 0 := by
        simp only [Sign.apply]
        omega
      rw [Format.nearest,if_pos below]
      simp [Sign.apply]

/-- The value of a pattern, infinity included, is the nearest one to itself. -/
theorem nearest_units {F : Format} (s : Sign) (n : Nat) :
    F.nearest (s.apply (F.units n)) = s.apply (min F.infinity n : Nat) := by
  rw [nearest_apply,Format.round_units]

theorem normalize_reads (z : Int) (k : Nat) (zero : Sign) : ∃ s n,
    Reads spec (UnpackedFloat.normalize spec z (spec.minExponent+k) zero) s n ∧
      s.apply (min (Format.ofMachine spec).infinity n : Nat) =
        (Format.ofMachine spec).nearest (z*2^k) := by
  unfold UnpackedFloat.normalize
  rcases lt_trichotomy z 0 with neg | rfl | pos
  · obtain ⟨n,reads,rounded⟩ := @round_reads spec (-z).toNat (by omega) k .negative
    have value : z*2^k = Sign.negative.apply ((-z).toNat*2^k : Nat) := by
      have magnitude : ((-z).toNat : Int) = -z := Int.toNat_of_nonneg (by omega)
      simp [Sign.apply,magnitude]
    have order : compare z 0 = .lt := compare_lt_iff_lt.mpr neg
    rw [order]
    exact ⟨.negative,n,reads,by rw [value,nearest_apply,rounded]⟩
  · refine ⟨zero,0,.zero zero,?_⟩
    have value : (0 : Int)*2^k = zero.apply ((Format.ofMachine spec).units 0) := by
      cases zero <;> simp [Sign.apply,Format.units]
    rw [value,nearest_units]
  · obtain ⟨n,reads,rounded⟩ := @round_reads spec z.toNat (by omega) k .positive
    have value : z*2^k = Sign.positive.apply (z.toNat*2^k : Nat) := by
      have magnitude : (z.toNat : Int) = z := Int.toNat_of_nonneg (by omega)
      simp [Sign.apply,magnitude]
    have order : compare z 0 = .gt := compare_gt_iff_gt.mpr pos
    rw [order]
    exact ⟨.positive,n,reads,by rw [value,nearest_apply,rounded]⟩

theorem decreaseExponent_eq {m k b : Nat} (below : b ≤ k) :
    (decreaseExponent m (spec.minExponent+k) (spec.minExponent+b)).1 = m*2^(k-b) := by
  have amount : (spec.minExponent+k-(spec.minExponent+b)).toNat = k-b := by omega
  simp only [decreaseExponent,amount,Nat.shiftLeft_eq]

theorem apply_mul (s : Sign) (a b : Nat) : s.apply (a*b : Nat) = s.apply a*b := by
  cases s <;> simp [Sign.apply]

/-- Signed values are ordered as their signed patterns are. -/
theorem apply_units_le {F : Format} :
    s.apply (F.units n) ≤ t.apply (F.units l) ↔ s.apply n ≤ t.apply l := by
  have none (n : Nat) : F.units n = 0 ↔ n = 0 := by
    have zero : F.units 0 = 0 := by simp [Format.units]
    have least := @Format.units_le F n 0
    rw [zero] at least
    simpa using least
  have same := @Format.units_le F
  have left := none n
  have right := none l
  cases s <;> cases t <;> simp only [Sign.apply]
  · have := @same l n
    omega
  · omega
  · omega
  · have := @same n l
    omega

/-- A sum is the pattern nearest to the exact sum. -/
theorem add_reads (hu : Reads spec u s n) (hv : Reads spec v t l) : ∃ r m,
    Reads spec (add spec u v) r m ∧ r.apply (min (Format.ofMachine spec).infinity m : Nat) =
      (Format.ofMachine spec).nearest (s.apply ((Format.ofMachine spec).units n)+
        t.apply ((Format.ofMachine spec).units l)) := by
  have none (s : Sign) : s.apply ((Format.ofMachine spec).units 0) = 0 := by
    cases s <;> simp [Sign.apply,Format.units]
  cases hu with
  | zero s =>
    rw [none,Int.zero_add]
    cases hv with
    | zero t =>
      have signs (r : Sign) : r.apply (min (Format.ofMachine spec).infinity 0 : Nat) =
          (Format.ofMachine spec).nearest (t.apply ((Format.ofMachine spec).units 0)) := by
        rw [nearest_units,Nat.min_zero]
        cases r <;> cases t <;> rfl
      simp only [add]
      split_ifs
      · exact ⟨s,0,.zero s,signs s⟩
      · exact ⟨.positive,0,.zero .positive,signs .positive⟩
    | finite pos c => exact ⟨_,_,.finite pos c,(nearest_units _ _).symm⟩
  | @finite _ m k pos c =>
    cases hv with
    | zero t =>
      rw [none,Int.add_zero]
      exact ⟨_,_,.finite pos c,(nearest_units _ _).symm⟩
    | @finite _ m' k' pos' c' =>
      have least : min (spec.minExponent+(k : Int)) (spec.minExponent+k') =
          spec.minExponent+(min k k' : Nat) := by omega
      obtain ⟨r,n,reads,rounded⟩ := @normalize_reads spec
        (s.apply (m*2^(k-min k k') : Nat)+t.apply (m'*2^(k'-min k k') : Nat)) (min k k') .positive
      refine ⟨r,n,?_,?_⟩
      · simp only [add,least]
        rw [decreaseExponent_eq (Nat.min_le_left k k'),decreaseExponent_eq (Nat.min_le_right k k')]
        exact reads
      · have value {a j : Nat} (above : min k k' ≤ j) (s : Sign) :
            s.apply (a*2^(j-min k k') : Nat)*2^min k k' = s.apply (a*2^j : Nat) := by
          rw [apply_mul,apply_mul,mul_assoc]
          congr 1
          push_cast
          rw [← pow_add,Nat.sub_add_cancel above]
        rw [rounded,add_mul,value (Nat.min_le_left k k'),value (Nat.min_le_right k k')]
        have first : (Format.ofMachine spec).units (m+k*2^spec.mantissaBitsWithoutImplicit) =
          m*2^k := c.units
        have last : (Format.ofMachine spec).units (m'+k'*2^spec.mantissaBitsWithoutImplicit) =
          m'*2^k' := c'.units
        rw [first,last]

theorem neg_reads (h : Reads spec u s n) : Reads spec u.neg (-s) n := by
  cases h with
  | zero s => exact .zero (-s)
  | finite pos c => exact .finite pos c

/-- A difference is the sum with the other sign. -/
theorem sub_eq (hu : Reads spec u s n) (hv : Reads spec v t l) :
    sub spec u v = add spec u v.neg := by
  cases hu with
  | zero s => cases hv <;> rfl
  | finite pos c =>
    cases hv with
    | zero t => rfl
    | finite pos' c' =>
      have opposite (m : Nat) : (-t).apply m = -t.apply m := by
        cases t with
        | positive => rfl
        | negative => exact (Int.neg_neg m).symm
      simp only [sub,add,neg,opposite,sub_eq_add_neg]

theorem sub_reads (hu : Reads spec u s n) (hv : Reads spec v t l) : ∃ r m,
    Reads spec (sub spec u v) r m ∧ r.apply (min (Format.ofMachine spec).infinity m : Nat) =
      (Format.ofMachine spec).nearest (s.apply ((Format.ofMachine spec).units n)-
        t.apply ((Format.ofMachine spec).units l)) := by
  obtain ⟨r,m,reads,rounded⟩ := add_reads hu (neg_reads hv)
  refine ⟨r,m,sub_eq hu hv ▸ reads,rounded.trans ?_⟩
  cases t with
  | positive => rfl
  | negative => simp only [Sign.apply,sub_neg_eq_add]

/-- The exponent that a quotient is computed at, and the room that it leaves. -/
theorem divCore_eq {m m' k k' : Nat} (pos : 0 < m) (pos' : 0 < m') :
    ∃ (a : Nat) (e : Int),
    divCore spec m (spec.minExponent+k) m' (spec.minExponent+k') =
      (m*2^a/m',spec.minExponent+e,accuracyOfFraction (m*2^a%m') m') ∧
    a+e+k' = k+(Format.ofMachine spec).scale ∧
    (0 < e → spec.mantissaBitsWithoutImplicit ≤ (m*2^a/m').log2) := by
  have scale := @scale_eq spec
  set target := min (spec.minExponent+k-(spec.minExponent+k') : Int)
    (spec.targetExponent (totalExponent m (spec.minExponent+k)-
      totalExponent m' (spec.minExponent+k'))) with htarget
  obtain ⟨a,ha⟩ := Int.eq_ofNat_of_zero_le (show 0 ≤ (k : Int)-k'-target by omega)
  refine ⟨a,target-spec.minExponent,?_,by omega,?_⟩
  · have amount : (spec.minExponent+k-(spec.minExponent+k')-target).toNat = a := by omega
    rw [divCore,← htarget]
    simp only [amount,Nat.shiftLeft_eq]
    rw [add_sub_cancel]
  · intro normal
    have binades : m'.log2+1+spec.mantissaBitsWithoutImplicit ≤ m.log2+a := by
      unfold Float.Model.Format.targetExponent totalExponent
        Float.Model.Format.mantissaBits at htarget
      omega
    have large : 2^spec.mantissaBitsWithoutImplicit ≤ m*2^a/m' := by
      apply (Nat.le_div_iff_mul_le pos').mpr
      calc 2^spec.mantissaBitsWithoutImplicit*m'
          ≤ 2^spec.mantissaBitsWithoutImplicit*2^(m'.log2+1) :=
            Nat.mul_le_mul_left _ Nat.lt_log2_self.le
        _ = 2^(m'.log2+1+spec.mantissaBitsWithoutImplicit) := by rw [← pow_add,Nat.add_comm]
        _ ≤ 2^(m.log2+a) := Nat.pow_le_pow_right (by decide) binades
        _ ≤ m*2^a := by
          rw [pow_add]
          exact Nat.mul_le_mul_right _ (Nat.log2_self_le (by omega))
    have ne : m*2^a/m' ≠ 0 := by
      have := Nat.two_pow_pos spec.mantissaBitsWithoutImplicit
      omega
    exact (Nat.le_log2 ne).mpr large

theorem log2_div_two_pow (n c : Nat) : (n/2^c).log2 = n.log2-c := by
  rw [Nat.log2_eq_log_two,Nat.log2_eq_log_two,Nat.log_div_base_pow]

/-- A number of units of a unit, rounded. -/
theorem round_fine {F : Format} {p j K : Nat} (pos : 0 < p)
    (hK : K = ((p.log2 : Int)+(j-F.scale)-F.fraction).toNat) (room : (j-F.scale : Int) ≤ K) :
    F.round (p*2^j) (2^(2*F.scale)) =
      min F.infinity (nearestEven p (2^(K-(j-F.scale : Int)).toNat)+K*2^F.fraction) := by
  have binade : (p*2^j).log2 = p.log2+j := by
    rw [← Nat.shiftLeft_eq,Format.log2_shiftLeft (by omega)]
  have shift : (p*2^j*2^F.scale/2^(2*F.scale)).log2-F.fraction = K := by
    rw [two_mul,pow_add 2 F.scale,Nat.mul_div_mul_right _ _ (Nat.two_pow_pos F.scale),
      log2_div_two_pow,binade]
    omega
  have powers : 2^(2*F.scale)*2^K = 2^j*2^F.scale*2^(K-(j-F.scale : Int)).toNat := by
    rw [← pow_add,← pow_add,← pow_add]
    congr 1
    omega
  unfold Format.round
  simp only [Nat.shiftLeft_eq,shift]
  congr 2
  apply Format.nearestEven_congr (Nat.mul_pos (Nat.two_pow_pos _) (Nat.two_pow_pos K))
    (Nat.two_pow_pos _)
  rw [powers]
  ring

/-- A product is the pattern nearest to the exact product. -/
theorem mul_reads (hu : Reads spec u s n) (hv : Reads spec v t l) : ∃ m,
    Reads spec (mul spec u v) (s*t) m ∧ min (Format.ofMachine spec).infinity m =
      (Format.ofMachine spec).round ((Format.ofMachine spec).units n*(Format.ofMachine spec).units l)
        (2^(2*(Format.ofMachine spec).scale)) := by
  have none : (Format.ofMachine spec).units 0 = 0 := by simp [Format.units]
  have zero : (Format.ofMachine spec).round 0 (2^(2*(Format.ofMachine spec).scale)) = 0 := by
    simp [Format.round,Format.nearestEven_zero]
  cases hu with
  | zero s =>
    rw [none,Nat.zero_mul,zero]
    refine ⟨0,?_,Nat.min_zero _⟩
    cases hv <;> exact .zero (s*t)
  | @finite _ m k pos c =>
    cases hv with
    | zero t =>
      rw [none,Nat.mul_zero,zero]
      exact ⟨0,.zero (s*t),Nat.min_zero _⟩
    | @finite _ m' k' pos' c' =>
      have exact_ : (Format.ofMachine spec).units (m+k*2^spec.mantissaBitsWithoutImplicit)*
          (Format.ofMachine spec).units (m'+k'*2^spec.mantissaBitsWithoutImplicit) =
            m*m'*2^(k+k') := by
        have left : (Format.ofMachine spec).units (m+k*2^spec.mantissaBitsWithoutImplicit) =
          m*2^k := c.units
        have right : (Format.ofMachine spec).units (m'+k'*2^spec.mantissaBitsWithoutImplicit) =
          m'*2^k' := c'.units
        rw [left,right,pow_add]
        ring
      have exponent : spec.minExponent+k+(spec.minExponent+k') =
          spec.minExponent+((k+k' : Nat)-(Format.ofMachine spec).scale : Int) := by
        have := @scale_eq spec
        omega
      -- only subnormal factors have few bits, and then the exponent is the least
      have large : k+k' = 0 ∨ 2^spec.mantissaBitsWithoutImplicit ≤ m*m' := by
        rcases c.normal with low | high
        · rcases c'.normal with low' | high'
          · exact .inl (by omega)
          · exact .inr (high'.trans (Nat.le_mul_of_pos_left _ pos))
        · exact .inr (high.trans (Nat.le_mul_of_pos_right _ pos'))
      have prod : 0 < m*m' := Nat.mul_pos pos pos'
      have room : ((k+k' : Nat)-(Format.ofMachine spec).scale : Int) ≤
          (((m*m').log2 : Int)+((k+k' : Nat)-(Format.ofMachine spec).scale : Int)-
            spec.mantissaBitsWithoutImplicit).toNat := by
        rcases large with low | high
        · omega
        · have := (Nat.le_log2 (by omega)).mpr high
          omega
      have step := @roundWithAccuracy_reads spec (m*m') 1 _ _ Nat.one_pos (by rw [Nat.div_one]) room
        (s*t)
      rw [Nat.div_one,Nat.mod_one,Nat.one_mul] at step
      refine ⟨_,?_,(round_fine prod rfl room).symm.trans (by rw [exact_])⟩
      rw [mul,exponent]
      exact step
/-- The exponent of a quotient, from that of one with other powers of two. -/
theorem quotient_log2 {m m' a k k' scale f : Nat} {e : Int} (exponents : a+e+k' = k+scale)
    (room : 0 < e → 0 < (m*2^a/m').log2) :
    (m*2^k*2^scale/(m'*2^k')).log2-f = ((m*2^a/m').log2+e-f).toNat := by
  have pos := Nat.two_pow_pos k'
  rcases Int.eq_nat_or_neg e with ⟨c,rfl | rfl⟩
  · have powers : m*2^k*2^scale = m*2^a*(2^k'*2^c) := by
      rw [mul_assoc,mul_assoc,← pow_add,← pow_add,← pow_add]
      congr 2
      omega
    have same : m*2^k*2^scale/(m'*2^k')/2^c = m*2^a/m' := by
      rw [Nat.div_div_eq_div_mul,powers,mul_assoc m',
        Nat.mul_div_mul_right _ _ (Nat.mul_pos pos (Nat.two_pow_pos c))]
    have binade := log2_div_two_pow (m*2^k*2^scale/(m'*2^k')) c
    rw [same] at binade
    omega
  · have powers : m*2^k*2^scale*2^c = m*2^a*2^k' := by
      rw [mul_assoc,mul_assoc,mul_assoc,← pow_add,← pow_add,← pow_add]
      congr 2
      omega
    have same : m*2^a/m'/2^c = m*2^k*2^scale/(m'*2^k') := by
      rw [Nat.div_div_eq_div_mul,← Nat.mul_div_mul_right _ _ pos,← powers,mul_right_comm m',
        Nat.mul_div_mul_right _ _ (Nat.two_pow_pos c)]
    have binade := log2_div_two_pow (m*2^a/m') c
    rw [same] at binade
    omega

/-- A quotient is the pattern nearest to the exact quotient. -/
theorem div_reads (hu : Reads spec u s n) (hv : Reads spec v t l) (pos : 0 < l) : ∃ m,
    Reads spec (div spec u v) (s/t) m ∧ min (Format.ofMachine spec).infinity m =
      (Format.ofMachine spec).round ((Format.ofMachine spec).units n)
        ((Format.ofMachine spec).units l) := by
  have fraction := spec.hm
  cases hv with
  | zero t => exact absurd pos (Nat.lt_irrefl 0)
  | @finite _ m' k' pos' c' =>
    have divisor : (Format.ofMachine spec).units (m'+k'*2^spec.mantissaBitsWithoutImplicit) =
      m'*2^k' := c'.units
    rw [divisor]
    cases hu with
    | zero s =>
      refine ⟨0,.zero (s/t),?_⟩
      simp [Format.units,Format.round,Format.nearestEven_zero,pos']
    | @finite _ m k pos c =>
      have dividend : (Format.ofMachine spec).units (m+k*2^spec.mantissaBitsWithoutImplicit) =
        m*2^k := c.units
      obtain ⟨a,e,core,exponents,room⟩ := @divCore_eq spec m m' k k' pos pos'
      have exponent := @quotient_log2 m m' a k k' _ spec.mantissaBitsWithoutImplicit e exponents
        fun normal => Nat.lt_of_lt_of_le fraction (room normal)
      have same : (Format.ofMachine spec).fraction = spec.mantissaBitsWithoutImplicit := rfl
      rw [dividend]
      unfold Format.round
      simp only [Nat.shiftLeft_eq,same,exponent]
      generalize (Format.ofMachine spec).scale = scale at exponents ⊢
      set K := ((m*2^a/m').log2+e-spec.mantissaBitsWithoutImplicit).toNat with hK
      have fits : e ≤ K := by
        by_cases low : e ≤ 0
        · omega
        · have := room (by omega)
          omega
      refine ⟨nearestEven (m*2^a) (m'*2^(K-e).toNat)+K*2^spec.mantissaBitsWithoutImplicit,?_,?_⟩
      · simp only [div,core]
        exact roundWithAccuracy_reads pos' hK fits (s/t)
      · congr 2
        apply Format.nearestEven_congr (Nat.mul_pos pos' (Nat.two_pow_pos _))
          (Nat.mul_pos (Nat.mul_pos pos' (Nat.two_pow_pos k')) (Nat.two_pow_pos K))
        have powers : 2^a*(2^k'*2^K) = 2^k*2^scale*2^(K-e).toNat := by
          rw [← pow_add,← pow_add,← pow_add,← pow_add]
          congr 1
          omega
        calc m*2^a*(m'*2^k'*2^K) = m*m'*(2^a*(2^k'*2^K)) := by ring
          _ = m*2^k*2^scale*(m'*2^(K-e).toNat) := by
            rw [powers]
            ring

theorem div_infinity_reads (hu : Reads spec u s n) : Reads spec (div spec u (.infinity t)) (s/t) 0 := by
  cases hu <;> exact .zero (s/t)

end GlobeBins.Machine

import Mathlib
import GlobeBins.Numeric.Format

namespace GlobeBins.Format

section

variable {n n' d d' : Nat}

theorem nearestEven_scale {c : Nat} (pos : 0 < c) :
    nearestEven (n*c) (d*c) = nearestEven n d := by
  have less (a b : Nat) : 2*(a*c) < b*c ↔ 2*a < b := by
    rw [← Nat.mul_assoc,Nat.mul_lt_mul_right pos]
  have more (a b : Nat) : b*c < 2*(a*c) ↔ b < 2*a := by
    rw [← Nat.mul_assoc,Nat.mul_lt_mul_right pos]
  unfold nearestEven
  simp only [Nat.mul_div_mul_right _ _ pos,Nat.mul_mod_mul_right,less,more]

/-- Half a unit above the rounded quotient is not exceeded, and only reached from an even one. -/
theorem nearestEven_upper (pos : 0 < d) : 2*n ≤ (2*nearestEven n d+1)*d ∧
    (2*n = (2*nearestEven n d+1)*d → nearestEven n d%2 = 0) := by
  have parts := Nat.div_add_mod n d
  have rest := Nat.mod_lt n pos
  have up : (2*(n/d+1)+1)*d = 2*(d*(n/d))+3*d := by ring
  have down : (2*(n/d)+1)*d = 2*(d*(n/d))+d := by ring
  unfold nearestEven
  simp only
  split_ifs with low high
  · rw [down]
    constructor <;> omega
  · rw [up]
    constructor <;> omega
  · rcases Nat.mod_two_eq_zero_or_one (n/d) with even | odd
    · have same : n/d+n/d%2 = n/d := by omega
      rw [same,down]
      constructor <;> omega
    · have next : n/d+n/d%2 = n/d+1 := by omega
      rw [next,up]
      constructor <;> omega

/-- Half a unit below the rounded quotient is reached, and only reached exactly from an even one. -/
theorem nearestEven_lower (pos : 0 < d) : 2*nearestEven n d*d ≤ 2*n+d ∧
    (2*nearestEven n d*d = 2*n+d → nearestEven n d%2 = 0) := by
  have parts := Nat.div_add_mod n d
  have rest := Nat.mod_lt n pos
  have up : 2*(n/d+1)*d = 2*(d*(n/d))+2*d := by ring
  have down : 2*(n/d)*d = 2*(d*(n/d)) := by ring
  unfold nearestEven
  simp only
  split_ifs with low high
  · rw [down]
    constructor <;> omega
  · rw [up]
    constructor <;> omega
  · rcases Nat.mod_two_eq_zero_or_one (n/d) with even | odd
    · have same : n/d+n/d%2 = n/d := by omega
      rw [same,down]
      constructor <;> omega
    · have next : n/d+n/d%2 = n/d+1 := by omega
      rw [next,up]
      constructor <;> omega

theorem nearestEven_mono (hd : 0 < d) (hd' : 0 < d') (h : n*d' ≤ n'*d) :
    nearestEven n d ≤ nearestEven n' d' := by
  obtain ⟨lower,even⟩ := @nearestEven_lower n d hd
  obtain ⟨upper,even'⟩ := @nearestEven_upper n' d' hd'
  generalize nearestEven n d = r at lower even ⊢
  generalize nearestEven n' d' = r' at upper even' ⊢
  by_contra descends
  have pos := Nat.mul_pos hd hd'
  have first : 2*r*(d*d') ≤ 2*(n*d')+d*d' := by
    have := Nat.mul_le_mul_right d' lower
    linarith
  have last : 2*(n'*d) ≤ (2*r'+1)*(d*d') := by
    have := Nat.mul_le_mul_right d upper
    linarith
  have next : r = r'+1 := by
    have bound : 2*r*(d*d') ≤ (2*r'+2)*(d*d') := by linarith
    have := Nat.le_of_mul_le_mul_right bound pos
    omega
  -- both are rounded from the same half, so both are even
  subst next
  have low : 2*(r'+1)*d = 2*n+d := by
    apply Nat.eq_of_mul_eq_mul_right hd'
    linarith
  have high : 2*n' = (2*r'+1)*d' := by
    apply Nat.eq_of_mul_eq_mul_right hd
    linarith
  have := even low
  have := even' high
  omega

theorem nearestEven_congr (hd : 0 < d) (hd' : 0 < d') (h : n*d' = n'*d) :
    nearestEven n d = nearestEven n' d' :=
  Nat.le_antisymm (nearestEven_mono hd hd' h.le) (nearestEven_mono hd' hd h.ge)

end

variable {F : Format}

/-- The fraction and the exponent of a pattern, which is their sum. -/
structure Canonical (F : Format) (m k : Nat) : Prop where
  below : m < 2^(F.fraction+1)
  normal : k = 0 ∨ 2^F.fraction ≤ m

theorem exists_canonical (n : Nat) : ∃ m k,F.Canonical m k ∧ n = m+k*2^F.fraction := by
  have double : 2^(F.fraction+1) = 2*2^F.fraction := pow_succ' _ _
  by_cases small : n < 2^F.fraction
  · exact ⟨n,0,⟨by omega,.inl rfl⟩,by simp⟩
  · have rest := Nat.mod_lt n (Nat.two_pow_pos F.fraction)
    have parts := Nat.div_add_mod n (2^F.fraction)
    have pos : 1 ≤ n/2^F.fraction := (Nat.one_le_div_iff (Nat.two_pow_pos _)).mpr (by omega)
    refine ⟨2^F.fraction+n%2^F.fraction,n/2^F.fraction-1,⟨by omega,.inr (by omega)⟩,?_⟩
    obtain ⟨k,hk⟩ := Nat.exists_eq_add_of_le' pos
    rw [hk] at parts ⊢
    rw [Nat.add_sub_cancel]
    linarith

theorem Canonical.units {m k : Nat} (h : F.Canonical m k) :
    F.units (m+k*2^F.fraction) = m*2^k := by
  have double : 2^(F.fraction+1) = 2*2^F.fraction := pow_succ' _ _
  have below := h.below
  unfold Format.units
  by_cases small : m < 2^F.fraction
  · obtain rfl : k = 0 := h.normal.resolve_right (by omega)
    rw [Nat.zero_mul,Nat.add_zero,if_pos small,pow_zero,Nat.mul_one]
  · obtain ⟨r,rfl⟩ := Nat.exists_eq_add_of_le (Nat.le_of_not_lt small)
    have pattern : 2^F.fraction+r+k*2^F.fraction = r+(k+1)*2^F.fraction := by ring
    have rest : r < 2^F.fraction := by omega
    rw [if_neg (by omega),pattern,Nat.add_mul_mod_self_right,Nat.mod_eq_of_lt rest,
      Nat.add_mul_div_right _ _ (Nat.two_pow_pos _),Nat.div_eq_of_lt rest,Nat.zero_add,
      Nat.add_sub_cancel,Nat.shiftLeft_eq]

theorem units_lt {n n' : Nat} (h : n < n') : F.units n < F.units n' := by
  obtain ⟨m,k,c,rfl⟩ := @exists_canonical F n
  obtain ⟨m',k',c',rfl⟩ := @exists_canonical F n'
  rw [c.units,c'.units]
  have below := c.below
  have below' := c'.below
  rcases Nat.lt_trichotomy k k' with up | rfl | down
  · have normal := c'.normal.resolve_left (by omega)
    calc m*2^k < 2^(F.fraction+1)*2^k := Nat.mul_lt_mul_of_pos_right below (Nat.two_pow_pos k)
      _ = 2^F.fraction*2^(k+1) := by ring
      _ ≤ 2^F.fraction*2^k' := Nat.mul_le_mul_left _ (Nat.pow_le_pow_right (by decide) up)
      _ ≤ m'*2^k' := Nat.mul_le_mul_right _ normal
  · exact Nat.mul_lt_mul_of_pos_right (by omega) (Nat.two_pow_pos k)
  · -- a higher exponent makes the pattern the larger one
    have normal := c.normal.resolve_left (by omega)
    have exponents := Nat.mul_le_mul_right (2^F.fraction) down
    rw [pow_succ] at below'
    rw [Nat.succ_mul] at exponents
    omega

theorem units_le {n n' : Nat} : F.units n ≤ F.units n' ↔ n ≤ n' := by
  constructor
  · exact fun h => Nat.le_of_not_lt fun descends => absurd h (Nat.not_le.mpr (units_lt descends))
  · exact fun h => (Nat.lt_or_eq_of_le h).elim (fun h => (units_lt h).le) (fun h => by rw [h])

/-- Where the quotient lies among the binades. -/
theorem nearestEven_binade {a d : Nat} (pos : 0 < d) :
    nearestEven a (d*2^((a/d).log2-F.fraction)) ≤ 2^(F.fraction+1) ∧
      ((a/d).log2-F.fraction = 0 ∨
        2^F.fraction ≤ nearestEven a (d*2^((a/d).log2-F.fraction))) := by
  set s := (a/d).log2-F.fraction with hs
  have scaled : 0 < d*2^s := Nat.mul_pos pos (Nat.two_pow_pos s)
  constructor
  · rw [← nearestEven_one (2^(F.fraction+1))]
    apply nearestEven_mono scaled Nat.one_pos
    have quotient : a/d < 2^(F.fraction+1+s) :=
      Nat.lt_of_lt_of_le Nat.lt_log2_self (Nat.pow_le_pow_right (by decide) (by omega))
    have := (Nat.div_lt_iff_lt_mul pos).mp quotient
    rw [pow_add] at this
    linarith
  · by_cases low : s = 0
    · exact .inl low
    · right
      conv_lhs => rw [← nearestEven_one (2^F.fraction)]
      apply nearestEven_mono Nat.one_pos scaled
      have ne : a/d ≠ 0 := by
        intro zero
        rw [zero,Nat.log2_zero] at hs
        omega
      have quotient : 2^(F.fraction+s) ≤ a/d :=
        (Nat.pow_le_pow_right (by decide) (by omega)).trans (Nat.log2_self_le ne)
      have := (Nat.le_div_iff_mul_le pos).mp quotient
      rw [pow_add] at this
      linarith

theorem round_mono {n n' d d' : Nat} (hd : 0 < d) (hd' : 0 < d') (h : n*d' ≤ n'*d) :
    F.round n d ≤ F.round n' d' := by
  unfold round
  simp only [Nat.shiftLeft_eq]
  have scaled : n*2^F.scale*d' ≤ n'*2^F.scale*d := by
    have := Nat.mul_le_mul_right (2^F.scale) h
    linarith
  generalize n*2^F.scale = a at scaled
  generalize n'*2^F.scale = a' at scaled
  obtain ⟨upper,_⟩ := @nearestEven_binade F a d hd
  obtain ⟨_,lower⟩ := @nearestEven_binade F a' d' hd'
  have quotient : a/d ≤ a'/d' := by
    apply (Nat.le_div_iff_mul_le hd').mpr
    apply Nat.le_of_mul_le_mul_right _ hd
    have := Nat.mul_le_mul_right d' (Nat.div_mul_le_self a d)
    linarith
  have exponent : (a/d).log2 ≤ (a'/d').log2 := by
    by_cases zero : a/d = 0
    · simp [zero]
    · rw [Nat.log2_eq_log_two,Nat.log2_eq_log_two]
      exact Nat.log_mono_right quotient
  have shift : (a/d).log2-F.fraction ≤ (a'/d').log2-F.fraction := Nat.sub_le_sub_right exponent _
  generalize (a/d).log2-F.fraction = s at shift upper
  generalize (a'/d').log2-F.fraction = s' at shift lower
  apply min_le_min_left
  rcases Nat.lt_or_eq_of_le shift with up | rfl
  · have normal := lower.resolve_left (by omega)
    have exponents := Nat.mul_le_mul_right (2^F.fraction) up
    rw [pow_succ] at upper
    rw [Nat.succ_mul] at exponents
    omega
  · apply Nat.add_le_add_right
    apply nearestEven_mono (Nat.mul_pos hd (Nat.two_pow_pos s)) (Nat.mul_pos hd' (Nat.two_pow_pos s))
    have := Nat.mul_le_mul_right (2^s) scaled
    linarith

theorem round_eq {u : Nat} : F.round u (1 <<< F.scale) =
    min F.infinity (nearestEven u (2^(u.log2-F.fraction))+(u.log2-F.fraction)*2^F.fraction) := by
  have pos := Nat.two_pow_pos F.scale
  unfold round
  simp only [Nat.shiftLeft_eq,Nat.one_mul,Nat.mul_div_cancel _ pos]
  rw [Nat.mul_comm (2^F.scale),nearestEven_scale pos]

/-- The value of a pattern is rounded to that pattern. -/
theorem round_units (n : Nat) : F.round (F.units n) (1 <<< F.scale) = min F.infinity n := by
  obtain ⟨m,k,c,rfl⟩ := @exists_canonical F n
  rw [c.units,round_eq]
  congr 1
  have below := c.below
  obtain rfl | normal := c.normal
  · have binade : m.log2 ≤ F.fraction := by
      by_cases zero : m = 0
      · simp [zero]
      · have := (Nat.log2_lt zero).mpr below
        omega
    rw [pow_zero,Nat.mul_one,Nat.sub_eq_zero_of_le binade,pow_zero,nearestEven_one]
  · have pos : m ≠ 0 := by
      have := Nat.two_pow_pos F.fraction
      omega
    have binade : m.log2 = F.fraction := (Nat.log2_eq_iff pos).mpr ⟨normal,below⟩
    have shift : (m*2^k).log2-F.fraction = k := by
      rw [← Nat.shiftLeft_eq,log2_shiftLeft pos,binade,Nat.add_sub_cancel_left]
    have whole : nearestEven (m*2^k) (2^k) = m := nearestEven_mul _ _ (Nat.two_pow_pos k)
    rw [shift,whole]

/-- The signed pattern nearest to a signed number of units. -/
def nearest (F : Format) (u : Int) : Int :=
  if u < 0 then -(F.round u.natAbs (1 <<< F.scale) : Int) else F.round u.natAbs (1 <<< F.scale)

theorem nearest_mono {u v : Int} (h : u ≤ v) : F.nearest u ≤ F.nearest v := by
  have pos : 0 < 1 <<< F.scale := by
    rw [Nat.one_shiftLeft]
    exact Nat.two_pow_pos _
  have mono {a b : Nat} (h : a ≤ b) : F.round a (1 <<< F.scale) ≤ F.round b (1 <<< F.scale) :=
    round_mono pos pos (Nat.mul_le_mul_right _ h)
  unfold nearest
  split_ifs with hu hv
  · exact neg_le_neg (Int.ofNat_le.mpr (mono (by omega)))
  · omega
  · omega
  · exact Int.ofNat_le.mpr (mono (by omega))

end GlobeBins.Format

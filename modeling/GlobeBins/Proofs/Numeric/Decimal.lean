import GlobeBins.Numeric.Shortest
import GlobeBins.Proofs.Numeric.Doubles
import GlobeBins.Proofs.Numeric.Singles

namespace GlobeBins.Format

section

variable {F : Format} {n d m q s : Nat}

/-- The value of the pattern behind one that is given by its mantissa and exponent. -/
theorem le_units_succ (bound : q ≤ 2^(F.fraction+1)) (normal : s = 0 ∨ 2^F.fraction ≤ q) :
    (q+1)*2^s ≤ F.units (q+s*2^F.fraction+1) := by
  rcases Nat.lt_or_eq_of_le bound with below | rfl
  · have moved : q+s*2^F.fraction+1 = q+1+s*2^F.fraction := by omega
    rw [moved,units_parts below (normal.imp_right Nat.le_succ_of_le)]
  · have carried : 2^(F.fraction+1)+s*2^F.fraction+1 = 2^F.fraction+1+(s+1)*2^F.fraction := by ring
    have small : 2^F.fraction+1 ≤ 2^(F.fraction+1) := by
      rw [pow_succ]
      have := Nat.two_pow_pos F.fraction
      omega
    rw [carried,units_parts small (.inr (Nat.le_succ _))]
    calc (2^(F.fraction+1)+1)*2^s ≤ (2^(F.fraction+1)+2)*2^s := Nat.mul_le_mul_right _ (by omega)
      _ = (2^F.fraction+1)*2^(s+1) := by ring

/-- Twice the middle between a pattern and the next one. -/
def middle (F : Format) (n : Nat) : Nat := F.units n+F.units (n+1)

theorem middle_lt {n n' : Nat} (h : n < n') : F.middle n < F.middle n' :=
  Nat.add_lt_add (units_lt h) (units_lt (Nat.succ_lt_succ h))

theorem middle_le {n n' : Nat} (h : n ≤ n') : F.middle n ≤ F.middle n' :=
  Nat.add_le_add (units_le.mpr h) (units_le.mpr (Nat.succ_le_succ h))

/-- A number lies between two ends, which count if the interval is closed. -/
def Between (closed : Bool) (low x high : Nat) : Prop :=
  if closed then low ≤ x ∧ x ≤ high else low < x ∧ x < high

/-- A pattern, not held down by infinity, that a quotient is rounded to. -/
structure Rounded (F : Format) (n d q s : Nat) : Prop where
  bound : q ≤ 2^(F.fraction+1)
  normal : s = 0 ∨ 2^F.fraction ≤ q ∧ 2^F.fraction*2^s*d ≤ n*2^F.scale
  mantissa : q = nearestEven (n*2^F.scale) (d*2^s)
  pattern : F.round n d = min F.infinity (q+s*2^F.fraction)

theorem exists_rounded (pos : 0 < d) (n : Nat) : ∃ q s,F.Rounded n d q s := by
  have binade := @nearestEven_binade F (n*2^F.scale) d pos
  refine ⟨_,(n*2^F.scale/d).log2-F.fraction,binade.1,?_,rfl,?_⟩
  · by_cases low : (n*2^F.scale/d).log2-F.fraction = 0
    · exact .inl low
    · refine .inr ⟨binade.2.resolve_left low,?_⟩
      have ne : n*2^F.scale/d ≠ 0 := by
        intro zero
        rw [zero,Nat.log2_zero] at low
        omega
      have exponent : F.fraction+((n*2^F.scale/d).log2-F.fraction) = (n*2^F.scale/d).log2 := by omega
      rw [← pow_add,exponent]
      exact (Nat.le_div_iff_mul_le pos).mp (Nat.log2_self_le ne)
  · unfold round
    simp only [Nat.shiftLeft_eq]

namespace Rounded

theorem value (h : F.Rounded n d q s) : F.units (q+s*2^F.fraction) = q*2^s :=
  units_parts h.bound (h.normal.imp_right And.left)

theorem even_iff (wide : 0 < F.fraction) : (q+s*2^F.fraction)%2 = q%2 := by
  obtain ⟨f,hf⟩ := Nat.exists_eq_add_of_le' wide
  rw [hf,pow_succ,← mul_assoc]
  omega

/-- A quotient is not above the middle to the next pattern, and in it only if its own one is even. -/
theorem upper (h : F.Rounded n d q s) (pos : 0 < d) (wide : 0 < F.fraction) :
    2*(n*2^F.scale) ≤ F.middle (q+s*2^F.fraction)*d ∧
      (2*(n*2^F.scale) = F.middle (q+s*2^F.fraction)*d → (q+s*2^F.fraction)%2 = 0) := by
  obtain ⟨below,even⟩ := @nearestEven_upper (n*2^F.scale) _ (Nat.mul_pos pos (Nat.two_pow_pos s))
  rw [← h.mantissa] at below even
  have next := le_units_succ h.bound (h.normal.imp_right And.left)
  have middle : (2*q+1)*(d*2^s) ≤ F.middle (q+s*2^F.fraction)*d := by
    rw [Format.middle,h.value]
    calc (2*q+1)*(d*2^s) = (q*2^s+(q+1)*2^s)*d := by ring
      _ ≤ _ := Nat.mul_le_mul_right _ (Nat.add_le_add_left next _)
  refine ⟨below.trans middle,fun here => ?_⟩
  rw [even_iff wide]
  exact even (le_antisymm below (here ▸ middle))

/-- A quotient is not below the middle to the pattern before, and in it only if its own one is even. -/
theorem lower {r : Nat} (h : F.Rounded n d q s) (pos : 0 < d) (wide : 0 < F.fraction)
    (pattern : q+s*2^F.fraction = r+1) :
    F.middle r*d ≤ 2*(n*2^F.scale) ∧ (F.middle r*d = 2*(n*2^F.scale) → (r+1)%2 = 0) := by
  obtain ⟨reached,even⟩ := @nearestEven_lower (n*2^F.scale) _ (Nat.mul_pos pos (Nat.two_pow_pos s))
  rw [← h.mantissa] at reached even
  have value := h.value
  rw [pattern] at value
  by_cases first : s ≠ 0 ∧ q = 2^F.fraction
  · -- the patterns below are closer together, and the binade of the quotient is this one
    have base := (h.normal.resolve_left first.1).2
    have before := @units_lt F _ _ (Nat.lt_succ_self r)
    have strict : F.middle r*d < 2*(n*2^F.scale) := by
      rw [Format.middle]
      rw [value] at before ⊢
      calc _ < (q*2^s+q*2^s)*d := Nat.mul_lt_mul_of_pos_right (Nat.add_lt_add_right before _) pos
        _ = 2*(2^F.fraction*2^s*d) := by rw [first.2]; ring
        _ ≤ 2*(n*2^F.scale) := Nat.mul_le_mul_left _ base
    exact ⟨strict.le,fun here => absurd here strict.ne⟩
  · have normal : s = 0 ∨ 2^F.fraction < q :=
      h.normal.elim .inl fun normal => (ne_or_eq s 0).elim
        (fun some => .inr (lt_of_le_of_ne normal.1 fun same => first ⟨some,same.symm⟩)) .inl
    have some : 0 < q := by
      rcases normal with rfl | normal
      · omega
      · exact (Nat.zero_le _).trans_lt normal
    obtain ⟨p,rfl⟩ := Nat.exists_eq_add_of_le' some
    have bound := h.bound
    have moved : r = p+s*2^F.fraction := by omega
    have before : F.units r = p*2^s := by
      rw [moved,units_parts (by omega) (normal.imp_right Nat.lt_succ_iff.mp)]
    have middle : F.middle r*d+d*2^s = 2*(p+1)*(d*2^s) := by
      rw [Format.middle,before,value]
      ring
    rw [← middle] at reached even
    refine ⟨Nat.le_of_add_le_add_right reached,fun here => ?_⟩
    rw [← pattern,even_iff wide]
    exact even (by rw [here])

end Rounded

/-- What lies between the middles is rounded to the pattern. -/
theorem round_between {r : Nat} (wide : 0 < F.fraction) (pos : 0 < d) (finite : r+1 < F.infinity)
    (h : Between ((r+1)%2 = 0) (F.middle r*d) (2*(n*2^F.scale)) (F.middle (r+1)*d)) :
    F.round n d = r+1 := by
  obtain ⟨q,s,rounded⟩ := @exists_rounded F d pos n
  have pattern := rounded.pattern
  have upper := rounded.upper pos wide
  have lower {p : Nat} := @rounded.lower F n d q s p pos wide
  generalize q+s*2^F.fraction = p at pattern upper lower
  suffices same : p = r+1 by rw [pattern,same,Nat.min_eq_right finite.le]
  have order {i j : Nat} (h : F.middle i*d ≤ F.middle j*d) : i ≤ j :=
    Nat.le_of_not_lt fun descends => absurd (Nat.le_of_mul_le_mul_right h pos)
      (Nat.not_le.mpr (middle_lt descends))
  -- ends of another pattern are reached only where both are even, but neighbours are not
  by_cases even : (r+1)%2 = 0
  · simp only [Between,even,decide_true,if_true] at h
    apply Nat.le_antisymm
    · cases p with
      | zero => exact Nat.zero_le _
      | succ p =>
        obtain ⟨reached,ends⟩ := lower rfl
        have := order (reached.trans h.2)
        by_contra above
        obtain rfl : p = r+1 := by omega
        have := ends (le_antisymm reached h.2)
        omega
    · have := order (h.1.trans upper.1)
      by_contra below
      obtain rfl : p = r := by omega
      have := upper.2 (le_antisymm upper.1 h.1)
      omega
  · simp only [Between,even,decide_false] at h
    apply Nat.le_antisymm
    · cases p with
      | zero => exact Nat.zero_le _
      | succ p =>
        by_contra above
        have far : F.middle (r+1)*d ≤ F.middle p*d := Nat.mul_le_mul_right d (middle_le (by omega))
        exact absurd (far.trans (lower rfl).1) (Nat.not_le.mpr h.2)
    · by_contra below
      have far : F.middle p*d ≤ F.middle r*d := Nat.mul_le_mul_right d (middle_le (by omega))
      exact absurd (upper.1.trans far) (Nat.not_le.mpr h.1)

/-- The format has no more digits than the doubles and no wider range. -/
structure Narrow (F : Format) : Prop where
  wide : 0 < F.fraction
  fraction : F.fraction ≤ 52
  scale : F.scale ≤ 1074
  exponents : 0 < F.exponents
  range : F.fraction+F.exponents ≤ F.scale+1025

theorem single_narrow : single.Narrow := by constructor <;> decide

theorem double_narrow : double.Narrow := by constructor <;> decide

theorem Narrow.units_infinity (narrow : F.Narrow) {k : Nat} (high : 1024 ≤ k) :
    F.units F.infinity ≤ 2^k*2^F.scale := by
  obtain ⟨j,hj⟩ := Nat.exists_eq_add_of_le' narrow.exponents
  have range := narrow.range
  have parts : F.infinity = 2^F.fraction+j*2^F.fraction := by
    rw [infinity,hj]
    ring
  have small : 2^F.fraction ≤ 2^(F.fraction+1) := Nat.pow_le_pow_right (by decide) (Nat.le_succ _)
  rw [parts,units_parts small (.inr le_rfl),← pow_add,← pow_add]
  exact Nat.pow_le_pow_right (by decide) (by omega)

theorem round_huge (narrow : F.Narrow) (pos : 0 < d) {k : Nat} (high : 1024 ≤ k)
    (huge : 2^k*d ≤ n) : F.round n d = F.infinity := by
  apply Nat.le_antisymm (round_le_infinity F n d)
  have unit : 0 < 1 <<< F.scale := by
    rw [Nat.one_shiftLeft]
    exact Nat.two_pow_pos _
  have top := @round_units F F.infinity
  rw [Nat.min_self] at top
  rw [← top]
  apply round_mono unit pos
  rw [Nat.one_shiftLeft]
  calc F.units F.infinity*d ≤ 2^k*2^F.scale*d := Nat.mul_le_mul_right d (narrow.units_infinity high)
    _ = 2^k*d*2^F.scale := by ring
    _ ≤ n*2^F.scale := Nat.mul_le_mul_right _ huge

theorem round_tiny (pos : 0 < d) {k : Nat} (low : F.scale+2 ≤ k) (tiny : n*2^k ≤ d) :
    F.round n d = 0 := by
  have small : n*2^F.scale*4 ≤ d := by
    calc n*2^F.scale*4 = n*2^(F.scale+2) := by ring
      _ ≤ n*2^k := Nat.mul_le_mul_left n (Nat.pow_le_pow_right (by decide) low)
      _ ≤ d := tiny
  have below : n*2^F.scale < d := by omega
  unfold round nearestEven
  simp only [Nat.shiftLeft_eq,Nat.div_eq_of_lt below,Nat.log2_zero,Nat.zero_sub,pow_zero,
    Nat.mul_one,Nat.zero_mul,Nat.mod_eq_of_lt below]
  rw [if_pos (by omega),Nat.min_zero]

theorem two_pow_le_ten_pow (j : Nat) : 2^(3*j) ≤ 10^j := by
  rw [pow_mul]
  exact Nat.pow_le_pow_left (by decide) j

/-- A decimal is rounded as the quotient that it is, also where its size is settled without it. -/
theorem ofDecimal_eq (narrow : F.Narrow) (digits : Nat) (e : Int) :
    F.ofDecimal digits e = F.round (digits*10^e.toNat) (10^(-e).toNat) := by
  have pos : 0 < 10^(-e).toNat := Nat.pow_pos (by decide)
  have scale := narrow.scale
  unfold ofDecimal
  simp only
  split_ifs with zero huge tiny whole
  · rw [zero,Nat.zero_mul,round_tiny pos le_rfl]
    exact (Nat.zero_mul _).trans_le (Nat.zero_le _)
  · have power : 10^(digits.log2/4) ≤ digits := by
      calc 10^(digits.log2/4) ≤ (2^4)^(digits.log2/4) := Nat.pow_le_pow_left (by decide) _
        _ = 2^(4*(digits.log2/4)) := by rw [pow_mul]
        _ ≤ 2^digits.log2 := Nat.pow_le_pow_right (by decide) (Nat.mul_div_le _ _)
        _ ≤ digits := Nat.log2_self_le zero
    obtain ⟨j,hj⟩ : ∃ j : Nat,digits.log2/4+e.toNat = j+(-e).toNat ∧ 401 ≤ j :=
      ⟨digits.log2/4+e.toNat-(-e).toNat,by omega⟩
    rw [round_huge narrow pos (k := 3*j) (by omega)]
    calc 2^(3*j)*10^(-e).toNat ≤ 10^j*10^(-e).toNat := Nat.mul_le_mul_right _ (two_pow_le_ten_pow j)
      _ = 10^(digits.log2/4)*10^e.toNat := by rw [← pow_add,← pow_add,hj.1]
      _ ≤ digits*10^e.toNat := Nat.mul_le_mul_right _ power
  · have none : e.toNat = 0 := by omega
    obtain ⟨j,hj⟩ : ∃ j : Nat,(-e).toNat = digits.log2+1+j ∧ 400 ≤ j :=
      ⟨(-e).toNat-digits.log2-1,by omega⟩
    rw [none,pow_zero,Nat.mul_one,round_tiny pos (k := 3*j) (by omega)]
    have bound : digits < 2^(digits.log2+1) := Nat.lt_log2_self
    calc digits*2^(3*j) ≤ 2^(digits.log2+1)*10^j := Nat.mul_le_mul bound.le (two_pow_le_ten_pow j)
      _ ≤ 10^(digits.log2+1)*10^j := Nat.mul_le_mul_right _ (Nat.pow_le_pow_left (by decide) _)
      _ = 10^(-e).toNat := by rw [← pow_add,hj.1]
  · have none : (-e).toNat = 0 := by omega
    rw [none,pow_zero]
  · have none : e.toNat = 0 := by omega
    rw [none,pow_zero,Nat.mul_one]

/-- More digits and a smaller exponent are the same decimal. -/
theorem ofDecimal_scale (narrow : F.Narrow) (digits : Nat) (e : Int) (k : Nat) :
    F.ofDecimal (digits*10^k) (e-k) = F.ofDecimal digits e := by
  have pos (j : Nat) : 0 < 10^j := Nat.pow_pos (by decide)
  have exponents : k+(e-k).toNat+(-e).toNat = e.toNat+(-(e-k)).toNat := by omega
  have same : digits*10^k*10^(e-k).toNat*10^(-e).toNat = digits*10^e.toNat*10^(-(e-k)).toNat := by
    rw [Nat.mul_assoc digits,← pow_add,Nat.mul_assoc digits,← pow_add,exponents,
      Nat.mul_assoc digits,← pow_add]
  rw [ofDecimal_eq narrow,ofDecimal_eq narrow]
  exact Nat.le_antisymm (round_mono (pos _) (pos _) same.le) (round_mono (pos _) (pos _) same.ge)

end

section

variable {low value high step scale : Nat} {closed : Bool}

instance (closed : Bool) (low x high : Nat) : Decidable (Between closed low x high) :=
  inferInstanceAs (Decidable (if closed then low ≤ x ∧ x ≤ high else low < x ∧ x < high))

/-- A point that one of two neighbours on a grid is. -/
theorem gridPoint?_eq : gridPoint? low value high step closed =
    let inside n := 0 < n ∧ Between closed low (n*step) high
    let nearer := value-value/step*step
    let farther := (value/step+1)*step-value
    if inside (value/step) ∧ (¬inside (value/step+1) ∨ nearer < farther ∨
      nearer = farther ∧ value/step%2 = 0) then some (value/step)
    else if inside (value/step+1) then some (value/step+1) else none := rfl

theorem gridPoint?_between {n : Nat} (h : gridPoint? low value high step closed = some n) :
    0 < n ∧ Between closed low (n*step) high := by
  rw [gridPoint?_eq] at h
  simp only at h
  split_ifs at h with below above
  · cases h
    exact below.1
  · cases h
    exact above

/-- On a grid that is fine enough the point behind the value is in the interval. -/
theorem gridPoint?_fine (pos : 0 < step) (above : low < value) (fine : value+step < high) :
    ∃ n,gridPoint? low value high step closed = some n := by
  have parts := Nat.div_add_mod value step
  have rest := Nat.mod_lt value pos
  have point : (value/step+1)*step = step*(value/step)+step := by ring
  have inside : 0 < value/step+1 ∧ Between closed low ((value/step+1)*step) high := by
    refine ⟨Nat.succ_pos _,?_⟩
    unfold Between
    rw [point]
    split <;> omega
  rw [gridPoint?_eq]
  simp only
  split_ifs
  · exact ⟨_,rfl⟩
  · exact ⟨_,rfl⟩

/-- One of the grids that are tried. -/
def grid? (low value high : Nat) (closed : Bool) (scale : Nat) (e : Int) : Option Nat :=
  gridPoint? (low*10^(-e).toNat) (value*10^(-e).toNat) (high*10^(-e).toNat) (10^e.toNat <<< scale)
    closed

theorem searchGrid_finds {fuel j : Nat} {e : Int} (reached : j < fuel)
    (hit : ∃ n,grid? low value high closed scale (e-j) = some n) :
    ∃ n e',searchGrid low value high closed scale fuel e = (n,e') ∧
      grid? low value high closed scale e' = some n := by
  induction fuel generalizing j e with
  | zero => cases reached
  | succ fuel ih =>
    cases here : grid? low value high closed scale e with
    | some n =>
      refine ⟨n,e,?_,here⟩
      unfold grid? at here
      simp only [searchGrid,here]
    | none =>
      have next : searchGrid low value high closed scale (fuel+1) e =
          searchGrid low value high closed scale fuel (e-1) := by
        unfold grid? at here
        simp only [searchGrid,here]
      rw [next]
      cases j with
      | zero => simp [here] at hit
      | succ j =>
        have moved : e-(j+1 : Nat) = e-1-j := by omega
        exact ih (Nat.lt_of_succ_lt_succ reached) (moved ▸ hit)

end

theorem ten_pow_le (n : Nat) : 10^n ≤ 2^(10*(n/3)+4*(n%3)) := by
  conv_lhs => rw [← Nat.div_add_mod n 3]
  rw [pow_add,pow_add,pow_mul,pow_mul,pow_mul 2 4]
  exact Nat.mul_le_mul (Nat.pow_le_pow_left (by decide) _) (Nat.pow_le_pow_left (by decide) _)

theorem le_ten_pow (n : Nat) : 2^(43*(n/13)+3*(n%13)) ≤ 10^n := by
  conv_rhs => rw [← Nat.div_add_mod n 13]
  rw [pow_add,pow_add,pow_mul,pow_mul,pow_mul 10 13]
  exact Nat.mul_le_mul (Nat.pow_le_pow_left (by decide) _) (Nat.pow_le_pow_left (by decide) _)

/-- The last grid that is tried is finer than the last binary digit, for values of every size that the
doubles have. -/
theorem last_grid {b e : Int} (low : -1100 ≤ b) (high : b ≤ 1100) (grid : e = b*30103/100000-21) :
    10^e.toNat*2^(54+(-b).toNat) ≤ 2^b.toNat*10^(-e).toNat := by
  by_cases whole : 0 ≤ e
  · have none : (-e).toNat = 0 := by omega
    have none' : (-b).toNat = 0 := by omega
    rw [none,none',pow_zero,Nat.mul_one,Nat.add_zero]
    calc 10^e.toNat*2^54 ≤ 2^(10*(e.toNat/3)+4*(e.toNat%3))*2^54 :=
          Nat.mul_le_mul_right _ (ten_pow_le _)
      _ = 2^(10*(e.toNat/3)+4*(e.toNat%3)+54) := by rw [← pow_add]
      _ ≤ 2^b.toNat := Nat.pow_le_pow_right (by decide) (by omega)
  · have none : e.toNat = 0 := by omega
    rw [none,pow_zero,Nat.one_mul]
    calc 2^(54+(-b).toNat) ≤ 2^(b.toNat+(43*((-e).toNat/13)+3*((-e).toNat%13))) :=
          Nat.pow_le_pow_right (by decide) (by omega)
      _ = 2^b.toNat*2^(43*((-e).toNat/13)+3*((-e).toNat%13)) := by rw [pow_add]
      _ ≤ 2^b.toNat*10^(-e).toNat := Nat.mul_le_mul_left _ (le_ten_pow _)

section

variable {F : Format} {r : Nat}

/-- A pattern has not more digits than the fraction, counted in steps to the next one. -/
theorem units_lt_gap (n : Nat) : ∃ gap,F.units (n+1) = F.units n+gap ∧
    F.units n < 2^(F.fraction+1)*gap := by
  obtain ⟨q,k,c,rfl⟩ := @exists_canonical F n
  have next := @le_units_succ F q k c.below.le c.normal
  have above : F.units (q+k*2^F.fraction) < F.units (q+k*2^F.fraction+1) := units_lt (Nat.lt_succ_self _)
  obtain ⟨gap,hgap⟩ := Nat.exists_eq_add_of_lt above
  refine ⟨gap+1,hgap,?_⟩
  have value := c.units
  have step : 2^k ≤ gap+1 := by
    rw [Nat.succ_mul,← value] at next
    omega
  calc F.units (q+k*2^F.fraction) = q*2^k := value
    _ < 2^(F.fraction+1)*2^k := Nat.mul_lt_mul_of_pos_right c.below (Nat.two_pow_pos k)
    _ ≤ 2^(F.fraction+1)*(gap+1) := Nat.mul_le_mul_left _ step

/-- The last grid has a point between a pattern and the middle to the next one. -/
theorem last_grid_fine (narrow : F.Narrow) (finite : r+1 < F.infinity) {e : Int}
    (grid : e = ((2*F.units (r+1)).log2-(F.scale+1) : Int)*30103/100000-21) :
    2*F.units (r+1)*10^(-e).toNat+10^e.toNat <<< (F.scale+1) < F.middle (r+1)*10^(-e).toNat := by
  obtain ⟨gap,next,small⟩ := @units_lt_gap F (r+1)
  have above : 0 < F.units (r+1) := Nat.zero_lt_of_lt (units_lt (Nat.succ_pos r))
  have below := (units_lt finite).trans_le (narrow.units_infinity le_rfl)
  have scale := narrow.scale
  have fraction := narrow.fraction
  rw [middle,next,Nat.shiftLeft_eq]
  generalize F.units (r+1) = u at *
  have ne : 2*u ≠ 0 := by omega
  have size : (2*u).log2 < 1025+F.scale := by
    rw [Nat.log2_lt ne,pow_add,pow_succ]
    omega
  have self := Nat.log2_self_le ne
  have fine := last_grid (b := (2*u).log2-(F.scale+1)) (by omega) (by omega) grid
  generalize (2*u).log2 = l at *
  have exponents : ((l : Int)-(F.scale+1)).toNat+(F.scale+1) = l+(-((l : Int)-(F.scale+1))).toNat := by
    omega
  generalize ((l : Int)-(F.scale+1)).toNat = b at *
  generalize (-((l : Int)-(F.scale+1))).toNat = b' at *
  generalize 10^e.toNat = up at *
  have pos : 0 < 10^(-e).toNat := Nat.pow_pos (by decide)
  generalize 10^(-e).toNat = down at *
  have step : up*2^(F.scale+1)*2^(54+b') < gap*down*2^(54+b') := by
    calc up*2^(F.scale+1)*2^(54+b') = up*2^(54+b')*2^(F.scale+1) := by ring
      _ ≤ 2^b*down*2^(F.scale+1) := Nat.mul_le_mul_right _ fine
      _ = 2^(b+(F.scale+1))*down := by rw [pow_add]; ring
      _ = 2^l*2^b'*down := by rw [exponents,pow_add]
      _ ≤ 2*u*2^b'*down := Nat.mul_le_mul_right _ (Nat.mul_le_mul_right _ self)
      _ = u*(2*2^b'*down) := by ring
      _ < 2^(F.fraction+1)*gap*(2*2^b'*down) := Nat.mul_lt_mul_of_pos_right small
          (Nat.mul_pos (Nat.mul_pos (by decide) (Nat.two_pow_pos b')) pos)
      _ = gap*down*2^(F.fraction+2+b') := by ring
      _ ≤ gap*down*2^(54+b') := Nat.mul_le_mul_left _ (Nat.pow_le_pow_right (by decide) (by omega))
  have parts : (u+(u+gap))*down = 2*u*down+gap*down := by ring
  rw [parts]
  exact Nat.add_lt_add_left (Nat.lt_of_mul_lt_mul_right step) _

/-- The shortest decimal of a pattern is rounded to that pattern. -/
theorem ofDecimal_shortest {n : Nat} (narrow : F.Narrow) (above : 0 < n) (finite : n < F.infinity) :
    0 < (F.shortest n).1 ∧ F.ofDecimal (F.shortest n).1 (F.shortest n).2 = n := by
  obtain ⟨r,rfl⟩ := Nat.exists_eq_add_of_le' above
  have pos (j : Nat) : 0 < 10^j := Nat.pow_pos (by decide)
  set start : Int := ((2*F.units (r+1)).log2-(F.scale+1) : Int)*30103/100000+2 with hstart
  have hit : ∃ n,grid? (F.middle r) (2*F.units (r+1)) (F.middle (r+1)) ((r+1)%2 = 0) (F.scale+1)
      (start-(23 : Nat)) = some n := by
    apply gridPoint?_fine
    · rw [Nat.shiftLeft_eq]
      exact Nat.mul_pos (pos _) (Nat.two_pow_pos _)
    · apply Nat.mul_lt_mul_of_pos_right _ (pos _)
      have : F.units r < F.units (r+1) := units_lt (Nat.lt_succ_self r)
      rw [middle]
      omega
    · exact last_grid_fine narrow finite (by omega)
  obtain ⟨digits,e,found,point⟩ := searchGrid_finds (show 23 < 24 by decide) hit
  obtain ⟨some,between⟩ := gridPoint?_between point
  have same : F.shortest (r+1) = (digits,e) := found
  rw [same]
  refine ⟨some,?_⟩
  rw [ofDecimal_eq narrow]
  apply round_between narrow.wide (pos _) finite
  have value : digits*(10^e.toNat <<< (F.scale+1)) = 2*(digits*10^e.toNat*2^F.scale) := by
    rw [Nat.shiftLeft_eq]
    ring
  rw [← value]
  exact between

/-- The decimal that a finite pattern is written as. -/
def decimal (F : Format) (n : Nat) : Nat × Int := if n = 0 then (0,0) else F.shortest n

/-- A pattern is read back from its decimal. -/
theorem ofDecimal_decimal {n : Nat} (narrow : F.Narrow) (finite : n < F.infinity) :
    F.ofDecimal (F.decimal n).1 (F.decimal n).2 = n := by
  rw [decimal]
  split
  next zero =>
    rw [zero]
    rfl
  next some => exact (ofDecimal_shortest narrow (Nat.pos_of_ne_zero some) finite).2

end

/-- A decimal in the range of the singles is in the range of the doubles. -/
theorem double_finite {digits : Nat} {e : Int} (finite : single.ofDecimal digits e < single.infinity) :
    double.ofDecimal digits e < double.infinity := by
  rw [ofDecimal_eq single_narrow] at finite
  rw [ofDecimal_eq double_narrow]
  have pos : 0 < 10^(-e).toNat := Nat.pow_pos (by decide)
  have top : single.round (2^128) 1 = single.infinity := by decide +kernel
  have low : digits*10^e.toNat*1 ≤ 2^128*10^(-e).toNat := by
    by_contra high
    have := round_mono (F := single) Nat.one_pos pos (Nat.le_of_not_le high)
    omega
  have room : double.round (2^128) 1 < double.infinity := by decide +kernel
  exact (round_mono pos Nat.one_pos low).trans_lt room

end GlobeBins.Format

namespace GlobeBins

namespace Binary64

theorem bits_ofMagnitude (negative : Bool) {n : Nat} (small : n < 2^63) :
    (ofMagnitude negative n).bits.toNat = (if negative then 2^63 else 0)+n := by
  have word : n.toUInt64.toNat = n := Nat.mod_eq_of_lt (Nat.lt_trans small (by decide))
  cases negative with
  | false => simp [ofMagnitude,word]
  | true =>
    have sign : (0x8000000000000000 : UInt64).toNat = 2^63 := rfl
    have parts := Nat.two_pow_add_eq_or_of_lt small 1
    rw [Nat.mul_one] at parts
    simp only [ofMagnitude,if_true,UInt64.toNat_or,word,sign]
    rw [parts,Nat.or_comm]

theorem ofMagnitude_parts (negative : Bool) {n : Nat} (small : n < 2^63) :
    (ofMagnitude negative n).magnitude = n ∧ (ofMagnitude negative n).isNegative = negative := by
  rw [magnitude_eq,Bool.eq_iff_iff,isNegative_iff,bits_ofMagnitude negative small]
  cases negative with
  | false =>
    rw [if_neg Bool.false_ne_true,Nat.zero_add]
    exact ⟨Nat.mod_eq_of_lt small,by simp [small]⟩
  | true =>
    rw [if_pos rfl,Nat.add_mod_left]
    exact ⟨Nat.mod_eq_of_lt small,by simp⟩

theorem ofMagnitude_self (x : Binary64) : ofMagnitude x.isNegative x.magnitude = x := by
  have small : x.magnitude < 2^63 := by
    rw [magnitude_eq]
    exact Nat.mod_lt _ (by decide)
  have bits := bits_ofMagnitude x.isNegative small
  have below := x.bits.toNat_lt
  have same : (ofMagnitude x.isNegative x.magnitude).bits.toNat = x.bits.toNat := by
    rw [bits,magnitude_eq]
    simp only [isNegative_iff]
    split_ifs <;> omega
  cases x
  exact congrArg Binary64.mk (UInt64.toNat_inj.mp same)

/-- A finite double is read back from its decimal. -/
theorem ofDecimal_decimal {x : Binary64} (h : x.isFinite = true) :
    ofDecimal x.isNegative (Format.double.decimal x.magnitude).1
      (Format.double.decimal x.magnitude).2 = x := by
  rw [ofDecimal,Format.ofDecimal_decimal Format.double_narrow (isFinite_iff.mp h),ofMagnitude_self]

theorem ofDecimal_isFinite {negative : Bool} {digits : Nat} {e : Int} :
    (ofDecimal negative digits e).isFinite = true ↔
      Format.double.ofDecimal digits e < Format.double.infinity := by
  have bound : Format.double.ofDecimal digits e < 2^63 := by
    rw [Format.ofDecimal_eq Format.double_narrow]
    exact (Format.round_le_infinity _ _ _).trans_lt (by decide)
  rw [isFinite_iff,ofDecimal,(ofMagnitude_parts negative bound).1]

end Binary64

namespace Binary32

theorem bits_ofMagnitude (negative : Bool) {n : Nat} (small : n < 2^31) :
    (ofMagnitude negative n).bits.toNat = (if negative then 2^31 else 0)+n := by
  have word : n.toUInt32.toNat = n := Nat.mod_eq_of_lt (Nat.lt_trans small (by decide))
  cases negative with
  | false => simp [ofMagnitude,word]
  | true =>
    have sign : (0x80000000 : UInt32).toNat = 2^31 := rfl
    have parts := Nat.two_pow_add_eq_or_of_lt small 1
    rw [Nat.mul_one] at parts
    simp only [ofMagnitude,if_true,UInt32.toNat_or,word,sign]
    rw [parts,Nat.or_comm]

theorem ofMagnitude_self (x : Binary32) : ofMagnitude x.isNegative x.magnitude = x := by
  have below := x.bits.toNat_lt
  have same : (ofMagnitude x.isNegative x.magnitude).bits.toNat = x.bits.toNat := by
    rw [bits_ofMagnitude _ magnitude_lt,magnitude_eq]
    simp only [isNegative_iff]
    split_ifs <;> omega
  cases x
  exact congrArg Binary32.mk (UInt32.toNat_inj.mp same)

/-- A finite single is read back from its decimal. -/
theorem ofDecimal_decimal {x : Binary32} (h : x.isFinite = true) :
    ofDecimal x.isNegative (Format.single.decimal x.magnitude).1
      (Format.single.decimal x.magnitude).2 = x := by
  rw [ofDecimal,Format.ofDecimal_decimal Format.single_narrow (isFinite_iff.mp h),ofMagnitude_self]

/-- The double nearest to the decimal of a single. -/
def written (x : Binary32) : Binary64 :=
  Binary64.ofDecimal x.isNegative (Format.single.decimal x.magnitude).1
    (Format.single.decimal x.magnitude).2

theorem written_isFinite {x : Binary32} (h : x.isFinite = true) : x.written.isFinite = true := by
  rw [written,Binary64.ofDecimal_isFinite]
  apply Format.double_finite
  rw [Format.ofDecimal_decimal Format.single_narrow (isFinite_iff.mp h)]
  exact isFinite_iff.mp h

end Binary32

end GlobeBins

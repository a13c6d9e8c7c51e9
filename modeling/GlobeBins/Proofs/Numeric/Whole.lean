import GlobeBins.Proofs.Numeric.Rounding

namespace GlobeBins.Format

variable {F : Format} {n m k : Nat}

/-- The whole number that is nearest among those which the format holds. -/
def nearestWhole (F : Format) (n : Nat) : Nat :=
  nearestEven n (2^(n.log2-F.fraction))*2^(n.log2-F.fraction)

/-- The whole number has no more binary digits than the format. -/
def Holds (F : Format) (n : Nat) : Prop := ∃ m k,m < 2^(F.fraction+1) ∧ n = m*2^k

theorem holds_of_le (h : n ≤ 2^(F.fraction+1)) : F.Holds n := by
  rcases Nat.lt_or_eq_of_le h with below | rfl
  · exact ⟨n,0,below,by simp⟩
  · refine ⟨2^F.fraction,1,Nat.pow_lt_pow_right (by decide) (Nat.lt_succ_self _),?_⟩
    rw [pow_succ,pow_one]

theorem nearestWhole_zero : F.nearestWhole 0 = 0 := by simp [nearestWhole,nearestEven]

theorem nearestWhole_of_multiple (whole : n.log2-F.fraction ≤ k) (multiple : n = m*2^k) :
    F.nearestWhole n = n := by
  obtain ⟨j,rfl⟩ := Nat.exists_eq_add_of_le whole
  have parts : n = m*2^j*2^(n.log2-F.fraction) := by
    rw [mul_assoc,← pow_add,Nat.add_comm j,← multiple]
  have pos := Nat.two_pow_pos (n.log2-F.fraction)
  unfold nearestWhole
  conv_lhs =>
    enter [1,1]
    rw [parts]
  rw [nearestEven_mul _ _ pos,← parts]

theorem nearestWhole_of_holds (h : F.Holds n) : F.nearestWhole n = n := by
  obtain ⟨m,k,below,rfl⟩ := h
  by_cases zero : m = 0
  · simp [zero,nearestWhole_zero]
  · apply nearestWhole_of_multiple _ rfl
    have binade : (m*2^k).log2 = m.log2+k := by rw [← Nat.shiftLeft_eq,log2_shiftLeft zero]
    have digits := (Nat.log2_lt zero).mpr below
    omega

/-- Zeros at the end do not matter. -/
theorem nearestWhole_mul (n j : Nat) : F.nearestWhole (n*2^j) = F.nearestWhole n*2^j := by
  by_cases zero : n = 0
  · simp [zero,nearestWhole_zero]
  · have binade : (n*2^j).log2 = n.log2+j := by rw [← Nat.shiftLeft_eq,log2_shiftLeft zero]
    by_cases short : n.log2 ≤ F.fraction
    · have own : F.nearestWhole n = n := by
        apply nearestWhole_of_multiple (m := n) (k := 0)
        · omega
        · simp
      rw [own]
      exact nearestWhole_of_multiple (by omega) rfl
    · have shift : n.log2+j-F.fraction = n.log2-F.fraction+j := by omega
      unfold nearestWhole
      rw [binade,shift,pow_add,nearestEven_scale (Nat.two_pow_pos j),mul_assoc]

/-- The value of a mantissa, which a carry may have made one too large, and an exponent. -/
theorem units_parts (bound : m ≤ 2^(F.fraction+1)) (normal : k = 0 ∨ 2^F.fraction ≤ m) :
    F.units (m+k*2^F.fraction) = m*2^k := by
  rcases Nat.lt_or_eq_of_le bound with below | rfl
  · exact Canonical.units ⟨below,normal⟩
  · have c : F.Canonical (2^F.fraction) (k+1) :=
      ⟨Nat.pow_lt_pow_right (by decide) (Nat.lt_succ_self _),.inr (Nat.le_refl _)⟩
    have carried : 2^(F.fraction+1)+k*2^F.fraction = 2^F.fraction+(k+1)*2^F.fraction := by ring
    rw [carried,c.units]
    ring

/-- What a number of units is rounded to, as a number of units. -/
theorem units_round (finite : F.round n (1 <<< F.scale) < F.infinity) :
    F.units (F.round n (1 <<< F.scale)) = F.nearestWhole n := by
  rw [round_eq] at finite ⊢
  obtain ⟨bound,normal⟩ := @nearestEven_binade F n 1 Nat.one_pos
  rw [Nat.div_one,Nat.one_mul] at bound normal
  rw [Nat.min_eq_right (by omega),units_parts bound normal,nearestWhole]

/-- A whole number is rounded as its units are. -/
theorem round_whole (n : Nat) : F.round n 1 = F.round (n*2^F.scale) (1 <<< F.scale) := by
  have pos : 0 < 1 <<< F.scale := by
    rw [Nat.one_shiftLeft]
    exact Nat.two_pow_pos _
  have same : n*(1 <<< F.scale) = n*2^F.scale*1 := by rw [Nat.one_shiftLeft,Nat.mul_one]
  exact Nat.le_antisymm (round_mono Nat.one_pos pos same.le) (round_mono pos Nat.one_pos same.ge)

theorem holds_nearestWhole (n : Nat) : F.Holds (F.nearestWhole n) := by
  obtain ⟨bound,_⟩ := @nearestEven_binade F n 1 Nat.one_pos
  rw [Nat.div_one,Nat.one_mul] at bound
  obtain ⟨m,k,below,eq⟩ := holds_of_le (F := F) bound
  refine ⟨m,k+(n.log2-F.fraction),below,?_⟩
  rw [nearestWhole,eq,pow_add,mul_assoc]

/-- A held number is never nearer to a sum than what the sum is rounded to. -/
theorem nearestWhole_add_le (h : F.Holds n) : F.nearestWhole (n+m) ≤ n+2*m := by
  obtain ⟨d,k,below,eq⟩ := h
  set shift := (n+m).log2-F.fraction with hs
  have pos := Nat.two_pow_pos shift
  -- Either `n` has as many zeros as the sum loses digits, or it lies below the sum's binade.
  have between : ∃ a,n ≤ a*2^shift ∧ a*2^shift ≤ n+m := by
    by_cases whole : shift ≤ k
    · obtain ⟨j,rfl⟩ := Nat.exists_eq_add_of_le whole
      have parts : d*2^j*2^shift = n := by rw [eq,mul_assoc,← pow_add,Nat.add_comm j]
      exact ⟨d*2^j,parts.ge,parts.le.trans (Nat.le_add_right n m)⟩
    · have some : n+m ≠ 0 := by
        intro zero
        rw [zero,Nat.log2_zero] at hs
        omega
      have binade : 2^F.fraction*2^shift = 2^(n+m).log2 := by
        rw [← pow_add]
        congr 1
        omega
      have low : n ≤ 2^F.fraction*2^shift := by
        calc n = d*2^k := eq
          _ ≤ 2^(F.fraction+1)*2^k := Nat.mul_le_mul_right _ below.le
          _ = 2^(F.fraction+1+k) := (pow_add _ _ _).symm
          _ ≤ 2^(F.fraction+shift) := Nat.pow_le_pow_right (by decide) (by omega)
          _ = 2^F.fraction*2^shift := pow_add _ _ _
      exact ⟨2^F.fraction,low,by rw [binade]; exact Nat.log2_self_le some⟩
  obtain ⟨a,least,most⟩ := between
  have half := (nearestEven_lower (n := n+m) pos).1
  have scaled : nearestEven (n+m) (2^shift)*2^shift = F.nearestWhole (n+m) := rfl
  rw [mul_assoc,scaled] at half
  by_cases coarse : 2^shift ≤ 2*m
  · omega
  · have digits : nearestEven (n+m) (2^shift) ≤ a := by
      by_contra more
      have above : a+1 ≤ nearestEven (n+m) (2^shift) := by omega
      have step := Nat.mul_le_mul_right (2^shift) above
      rw [scaled,Nat.succ_mul] at step
      omega
    have bound : F.nearestWhole (n+m) ≤ a*2^shift := Nat.mul_le_mul_right _ digits
    omega

theorem nearestWhole_le (n : Nat) : F.nearestWhole n ≤ 2*n := by
  have none : F.Holds 0 := holds_of_le (Nat.zero_le _)
  simpa using nearestWhole_add_le (m := n) none

theorem sum_nearestWhole_le (counts : List Nat) :
    (counts.map F.nearestWhole).sum ≤ 2*counts.sum := by
  induction counts with
  | nil => exact Nat.le_refl _
  | cons n counts ih =>
    have first := nearestWhole_le (F := F) n
    rw [List.map_cons,List.sum_cons,List.sum_cons]
    omega

/-- Counts added up one after another, with each sum rounded. -/
def tally (F : Format) (counts : List Nat) : Nat := counts.foldl (fun n m => F.nearestWhole (n+m)) 0

/-- The format holds every running total. -/
def Running (F : Format) (counts : List Nat) : Prop := ∀ j,F.Holds (counts.take j).sum

variable {counts : List Nat}

theorem tally_append (counts : List Nat) (m : Nat) :
    F.tally (counts++[m]) = F.nearestWhole (F.tally counts+m) := by
  rw [tally,List.foldl_append,← tally,List.foldl_cons,List.foldl_nil]

theorem holds_tally (counts : List Nat) : F.Holds (F.tally counts) := by
  induction counts using List.reverseRecOn with
  | nil => exact holds_of_le (Nat.zero_le _)
  | append_singleton counts m _ =>
    rw [tally_append]
    exact holds_nearestWhole _

/-- Roundings can double a count at most. -/
theorem tally_le (counts : List Nat) : F.tally counts ≤ 2*counts.sum := by
  induction counts using List.reverseRecOn with
  | nil => exact Nat.zero_le _
  | append_singleton counts m ih =>
    have step := nearestWhole_add_le (m := m) (holds_tally (F := F) counts)
    rw [tally_append,List.sum_append,List.sum_singleton]
    omega

theorem tally_of_running (h : F.Running counts) : F.tally counts = counts.sum := by
  induction counts using List.reverseRecOn with
  | nil => rfl
  | append_singleton counts m ih =>
    have rest : F.Running counts := by
      intro j
      rcases Nat.le_total j counts.length with short | long
      · have start := h j
        rwa [List.take_append_of_le_length short] at start
      · have start := h counts.length
        rwa [List.take_left,← List.take_of_length_le long] at start
    have whole := h (counts++[m]).length
    rw [List.take_length,List.sum_append,List.sum_singleton] at whole
    rw [tally_append,ih rest,List.sum_append,List.sum_singleton,nearestWhole_of_holds whole]

theorem running_of_le (h : counts.sum ≤ 2^(F.fraction+1)) : F.Running counts := by
  intro j
  have least : (counts.take j).sum ≤ counts.sum := (List.take_sublist j counts).sum_le_sum (by simp)
  exact holds_of_le (least.trans h)

/-- Empty parts do not matter. -/
theorem tally_filter {α : Type} {parts : List α} {keep : α → Bool} {count : α → Nat}
    (empty : ∀ x ∈ parts,keep x = false → count x = 0) :
    F.tally ((parts.filter keep).map count) = F.tally (parts.map count) := by
  induction parts using List.reverseRecOn with
  | nil => rfl
  | append_singleton parts x ih =>
    have rest := ih fun y hy => empty y (by simp [hy])
    rw [List.filter_append,List.map_append,List.map_append,List.map_singleton,tally_append]
    cases kept : keep x
    · have none := empty x (by simp) kept
      have own := nearestWhole_of_holds (holds_tally (F := F) (parts.map count))
      simp [kept,none,rest,own]
    · simp [kept,tally_append,rest]

end GlobeBins.Format

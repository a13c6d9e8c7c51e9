import Mathlib
import GlobeBins.Text.Numeral

namespace GlobeBins.Text

/-- ASCII digits, at least one, and the number that they are in the decimal system. -/
structure Digits (s : List Char) (n : Nat) : Prop where
  nonempty : s ≠ []
  digits : ∀ c ∈ s,c.isDigit = true
  value : digitsValue s = n

/-- Digits, perhaps behind a plus sign. -/
def Cardinal (s : List Char) (n : Nat) : Prop := Digits s n ∨ ∃ r,s = '+'::r ∧ Digits r n

section

variable {s t : List Char} {c : Char} {n m : Nat}

theorem digitsValue_eq (s : List Char) : digitsValue s = Nat.ofDigitChars 10 s 0 := by
  rw [Nat.ofDigitChars_eq_foldl,digitsValue]

theorem digitsValue_append (s t : List Char) :
    digitsValue (s++t) = digitsValue s*10^t.length+digitsValue t := by
  rw [digitsValue_eq,digitsValue_eq,digitsValue_eq,Nat.ofDigitChars_append,
    Nat.ofDigitChars_eq_ofDigitChars_zero,Nat.mul_comm]

theorem digitsValue_cons (c : Char) (s : List Char) :
    digitsValue (c::s) = (c.toNat-48)*10^s.length+digitsValue s := by
  have front : digitsValue [c] = c.toNat-48 := by simp [digitsValue]
  rw [← List.singleton_append,digitsValue_append,front]

theorem digitsValue_zeros (k : Nat) : digitsValue (List.replicate k '0') = 0 := by
  rw [digitsValue_eq,Nat.ofDigitChars_replicate_zero,Nat.mul_zero]

theorem digits_toDigits (n : Nat) : Digits (Nat.toDigits 10 n) n where
  nonempty := Nat.toDigits_ne_nil
  digits _ mem := Nat.isDigit_of_mem_toDigits (by decide) (by decide) mem
  value := by rw [digitsValue_eq,Nat.ofDigitChars_ten_toDigits]

/-- Leading zeros change nothing. -/
theorem Digits.zeros (h : Digits s n) (k : Nat) : Digits (List.replicate k '0'++s) n where
  nonempty := List.append_ne_nil_of_right_ne_nil _ h.nonempty
  digits c mem := by
    rcases List.mem_append.mp mem with mem | mem
    · rw [(List.mem_replicate.mp mem).2]
      decide
    · exact h.digits c mem
  value := by rw [digitsValue_append,digitsValue_zeros,Nat.zero_mul,Nat.zero_add,h.value]

theorem toNat_of_isDigit (h : c.isDigit = true) : 48 ≤ c.toNat ∧ c.toNat ≤ 57 := by
  simpa [Char.isDigit,UInt32.le_iff_toNat_le] using h

theorem digitsValue_lt (h : ∀ c ∈ s,c.isDigit = true) : digitsValue s < 10^s.length := by
  induction s with
  | nil => decide
  | cons c s ih =>
    obtain ⟨digit,rest⟩ := List.forall_mem_cons.mp h
    have range := toNat_of_isDigit digit
    have front : (c.toNat-48)*10^s.length ≤ 9*10^s.length := Nat.mul_le_mul_right _ (by omega)
    have low := ih rest
    rw [digitsValue_cons,List.length_cons,pow_succ]
    omega

/-- Of two equally long digit texts the lesser one is that of the lesser number. -/
theorem digits_lt_iff (hs : ∀ c ∈ s,c.isDigit = true) (ht : ∀ c ∈ t,c.isDigit = true)
    (length : s.length = t.length) : s < t ↔ digitsValue s < digitsValue t := by
  induction s generalizing t with
  | nil =>
    rw [List.length_nil,eq_comm,List.length_eq_zero_iff] at length
    subst length
    simp
  | cons c s ih =>
    cases t with
    | nil => cases length
    | cons d t =>
      obtain ⟨hc,hs⟩ := List.forall_mem_cons.mp hs
      obtain ⟨hd,ht⟩ := List.forall_mem_cons.mp ht
      have same : s.length = t.length := Nat.succ.inj length
      have cs := toNat_of_isDigit hc
      have ds := toNat_of_isDigit hd
      have low := digitsValue_lt hs
      have low' := digitsValue_lt ht
      rw [same] at low
      have order : c < d ↔ c.toNat < d.toNat := Iff.rfl
      have equal : c = d ↔ c.toNat = d.toNat := Char.toNat_inj.symm
      rw [List.cons_lt_cons_iff,ih hs ht same,digitsValue_cons,digitsValue_cons,same,order,equal]
      rcases Nat.lt_trichotomy c.toNat d.toNat with less | level | more
      · have step := Nat.mul_le_mul_right (10^t.length) (show c.toNat-48+1 ≤ d.toNat-48 by omega)
        rw [Nat.succ_mul] at step
        omega
      · rw [level]
        omega
      · have step := Nat.mul_le_mul_right (10^t.length) (show d.toNat-48+1 ≤ c.toNat-48 by omega)
        rw [Nat.succ_mul] at step
        omega

/-- Texts whose front parts are equally long are in the order of these first. -/
theorem append_lt_append_iff {s' t' : List Char} (length : s.length = t.length) :
    s++s' < t++t' ↔ s < t ∨ s = t ∧ s' < t' := by
  induction s generalizing t with
  | nil =>
    rw [List.length_nil,eq_comm,List.length_eq_zero_iff] at length
    subst length
    simp
  | cons c s ih =>
    cases t with
    | nil => cases length
    | cons d t =>
      rw [List.cons_append,List.cons_append,List.cons_lt_cons_iff,List.cons_lt_cons_iff,
        ih (Nat.succ.inj length),List.cons.injEq]
      tauto

end

section

variable {s : List Char} {n : Nat}

theorem digits?_eq_some : digits? s = some n ↔ Digits s n := by
  rw [digits?,Option.ite_none_right_eq_some,List.all_eq_true,Option.some.injEq]
  constructor
  · rintro ⟨⟨nonempty,digits⟩,value⟩
    exact ⟨nonempty,digits,value⟩
  · rintro ⟨nonempty,digits,value⟩
    exact ⟨⟨nonempty,digits⟩,value⟩

/-- A sign is no digit. -/
theorem not_digits_of_sign {c : Char} {r : List Char} (h : c.isDigit = false) : ¬Digits (c::r) n := by
  intro digits
  rw [digits.digits c List.mem_cons_self] at h
  cases h

theorem natural?_eq_some {limit : Nat} : natural? limit s = some n ↔ Cardinal s n ∧ n ≤ limit := by
  unfold natural? Cardinal
  simp only [Option.filter_eq_some_iff,digits?_eq_some,decide_eq_true_eq]
  refine and_congr_left fun _ => ?_
  split
  next r => simp [not_digits_of_sign]
  next plain =>
    constructor
    · exact .inl
    · rintro (digits | ⟨r,rfl,_⟩)
      · exact digits
      · exact absurd rfl (plain r)

/-- An integer that is not negative is written without a minus sign, and read from what is written
without one. -/
theorem integer?_eq_some {least greatest z : Int} (unsigned : '-' ∉ s) :
    integer? least greatest s = some z ↔
      (∃ n : Nat,Cardinal s n ∧ (n : Int) = z) ∧ least ≤ z ∧ z ≤ greatest := by
  unfold integer? Cardinal
  simp only [Option.filter_eq_some_iff,decide_eq_true_eq]
  refine and_congr_left fun _ => ?_
  split
  next r => exact absurd List.mem_cons_self unsigned
  next r => simp [not_digits_of_sign,digits?_eq_some]
  next _ plain =>
    rw [Option.map_eq_some_iff]
    refine exists_congr fun n => and_congr_left fun _ => digits?_eq_some.trans ⟨.inl,?_⟩
    rintro (digits | ⟨r,rfl,_⟩)
    · exact digits
    · exact absurd rfl (plain r)

end

end GlobeBins.Text

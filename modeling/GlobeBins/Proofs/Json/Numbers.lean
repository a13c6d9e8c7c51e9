import GlobeBins.Proofs.Json.Texts
import GlobeBins.Proofs.Numeric.Decimal
import GlobeBins.Proofs.Text.Digits

namespace GlobeBins.Json

open Text (digitsValue digitsValue_append digitsValue_zeros digits_toDigits)

/-- The text does not go on with what a predicate takes. -/
def Stops (p : Char → Bool) (rest : List Char) : Prop := ∀ c ∈ rest.head?,p c = false

/-- What is part of a number behind its first digits. -/
def continues (c : Char) : Bool := c.isDigit || c == '.' || c == 'e' || c == 'E'

/-- Digits in front of the point: no zero stands before others. -/
structure Whole (s : List Char) : Prop where
  nonempty : s ≠ []
  digits : ∀ c ∈ s,c.isDigit = true
  plain : s = ['0'] ∨ s.head? ≠ some '0'

/-- The point and the digits behind it, if there are any. -/
def pointed (fraction : List Char) : List Char := if fraction = [] then [] else '.'::fraction

def wholePart : List Char → List Char
  | '0'::_ => ['0']
  | r => r.takeWhile Char.isDigit

def fractionPart : List Char → List Char
  | '.'::r => r.takeWhile Char.isDigit
  | _ => []

def hasPoint : List Char → Bool
  | '.'::_ => true
  | _ => false

/-- A number behind its sign, by its parts. -/
def unsignedFrom (negative : Bool) (s : List Char) : Option (Literal × List Char) :=
  let whole := wholePart s
  let rest := s.drop whole.length
  let fraction := fractionPart rest
  let behind := if hasPoint rest then rest.drop (1+fraction.length) else rest
  if whole = [] ∨ (hasPoint rest ∧ fraction = []) then none
  else
    match exponentFrom behind with
    | none => none
    | some (e,written,rest') =>
      some (⟨negative,digitsValue (whole++fraction),e-fraction.length,!hasPoint rest && !written⟩,
        rest')

theorem numberFrom_plain {s : List Char} (h : s.head? ≠ some '-') :
    numberFrom s = unsignedFrom false s := by
  unfold numberFrom
  split
  next negative body sign =>
    split at sign
    next r => exact absurd rfl h
    next =>
      cases sign
      rfl

section

variable {p : Char → Bool} {s whole fraction tail rest : List Char} {c : Char}

theorem takeWhile_stops (all : ∀ c ∈ s,p c = true) (stops : Stops p rest) :
    (s++rest).takeWhile p = s ∧ (s++rest).dropWhile p = rest := by
  rw [List.takeWhile_append_of_pos all,List.dropWhile_append_of_pos all]
  cases rest with
  | nil => simp
  | cons c rest =>
    have other := stops c rfl
    simp [other]

theorem Stops.mono {q : Char → Bool} (h : Stops p rest) (less : ∀ c,p c = false → q c = false) :
    Stops q rest := fun c mem => less c (h c mem)

theorem Stops.digit (h : Stops continues rest) : Stops Char.isDigit rest :=
  h.mono fun c other => by
    simp only [continues,Bool.or_eq_false_iff] at other
    exact other.1.1.1

/-- Where no exponent is written. -/
theorem exponentFrom_stops (h : Stops continues rest) : exponentFrom rest = some (0,false,rest) := by
  cases rest with
  | nil => rfl
  | cons c rest =>
    have other := h c rfl
    simp only [continues,Bool.or_eq_false_iff,beq_eq_false_iff_ne] at other
    simp [exponentFrom,other.1.2,other.2]

/-- An exponent is written with its sign. -/
theorem exponentFrom_written (negative : Bool) (n : Nat) (stops : Stops continues rest) :
    exponentFrom ('e'::(if negative then '-' else '+')::Nat.toDigits 10 n++rest) =
      some (if negative then -(n : Int) else n,true,rest) := by
  obtain ⟨nonempty,digits,value⟩ := digits_toDigits n
  obtain ⟨taken,dropped⟩ := takeWhile_stops digits stops.digit
  cases negative <;>
    simp [exponentFrom,taken,dropped,value,nonempty]

theorem Whole.takes (h : Whole whole) (stops : Stops Char.isDigit rest) :
    wholePart (whole++rest) = whole := by
  obtain ⟨taken,_⟩ := takeWhile_stops h.digits stops
  unfold wholePart
  split
  next tail zero =>
    rcases h.plain with rfl | other
    · rfl
    · refine absurd ?_ other
      have head := congrArg List.head? zero
      rw [List.head?_append_of_ne_nil _ h.nonempty] at head
      exact head
  next => exact taken

/-- What follows the digits in front of the point. -/
theorem pointed_parts (digits : ∀ c ∈ fraction,c.isDigit = true)
    (stops : Stops (fun c => c.isDigit || c == '.') tail) :
    Stops Char.isDigit (pointed fraction++tail) ∧ fractionPart (pointed fraction++tail) = fraction ∧
      hasPoint (pointed fraction++tail) = !fraction.isEmpty := by
  have plain : Stops Char.isDigit tail :=
    stops.mono fun c other => (Bool.or_eq_false_iff.mp other).1
  by_cases none : fraction = []
  · subst none
    refine ⟨plain,?_⟩
    cases tail with
    | nil => exact ⟨rfl,rfl⟩
    | cons c tail =>
      have other : c ≠ '.' := by simpa using (Bool.or_eq_false_iff.mp (stops c rfl)).2
      simp [pointed,fractionPart,hasPoint,other]
  · obtain ⟨taken,_⟩ := takeWhile_stops digits plain
    rw [pointed,if_neg none,List.cons_append]
    refine ⟨fun c mem => ?_,taken,?_⟩
    · obtain rfl := Option.mem_some.mp mem
      rfl
    · simp [hasPoint,none]

theorem unsignedFrom_parts {e : Int} {written : Bool} (negative : Bool) (front : Whole whole)
    (digits : ∀ c ∈ fraction,c.isDigit = true) (stops : Stops (fun c => c.isDigit || c == '.') tail)
    (exponent : exponentFrom tail = some (e,written,rest)) :
    unsignedFrom negative (whole++(pointed fraction++tail)) =
      some (⟨negative,digitsValue (whole++fraction),e-fraction.length,fraction.isEmpty && !written⟩,
        rest) := by
  obtain ⟨plain,fractional,point⟩ := pointed_parts digits stops
  have behind : (if hasPoint (pointed fraction++tail) = true then
      (pointed fraction++tail).drop (1+fraction.length) else pointed fraction++tail) = tail := by
    rw [point,pointed]
    by_cases none : fraction = []
    · simp [none]
    · simp [none,Nat.add_comm 1]
  unfold unsignedFrom
  simp only [front.takes plain,List.drop_left,fractional,behind,exponent]
  rw [if_neg (by simp [front.nonempty,point]),point,Bool.not_not]

end

section

variable {n digits : Nat} {rest : List Char}

theorem head_toDigits (pos : 0 < n) : (Nat.toDigits 10 n).head? ≠ some '0' := by
  induction n using Nat.strong_induction_on with
  | _ n ih =>
    by_cases small : n < 10
    · rw [Nat.toDigits_of_lt_base small]
      interval_cases n <;> decide
    · rw [Nat.toDigits_of_base_le (by decide) (Nat.le_of_not_lt small),
        List.head?_append_of_ne_nil _ Nat.toDigits_ne_nil]
      exact ih _ (by omega) (by omega)

theorem whole_toDigits (n : Nat) : Whole (Nat.toDigits 10 n) where
  nonempty := (digits_toDigits n).nonempty
  digits := (digits_toDigits n).digits
  plain := by
    rcases Nat.eq_zero_or_pos n with rfl | pos
    · exact .inl rfl
    · exact .inr (head_toDigits pos)

theorem Stops.plain (h : Stops continues rest) : Stops (fun c => c.isDigit || c == '.') rest :=
  h.mono fun c other => by
    simp only [continues,Bool.or_eq_false_iff] at other
    exact Bool.or_eq_false_iff.mpr other.1.1

theorem unsignedFrom_toDigits (negative : Bool) (n : Nat) (stops : Stops continues rest) :
    unsignedFrom negative (Nat.toDigits 10 n++rest) = some (⟨negative,n,0,true⟩,rest) := by
  have parts := unsignedFrom_parts negative (whole_toDigits n)
    (List.forall_mem_nil fun c : Char => c.isDigit = true) stops.plain (exponentFrom_stops stops)
  rw [List.append_nil,(digits_toDigits n).value] at parts
  exact parts

/-- Digits of a number that is not zero. -/
structure Leading (ds : List Char) (n : Nat) : Prop extends Text.Digits ds n where
  head : ds.head? ≠ some '0'

theorem leading_toDigits (pos : 0 < n) : Leading (Nat.toDigits 10 n) n :=
  ⟨digits_toDigits n,head_toDigits pos⟩

variable {ds : List Char}

namespace Leading

theorem whole (h : Leading ds n) {more : List Char} (digits : ∀ c ∈ more,c.isDigit = true) :
    Whole (ds++more) where
  nonempty := List.append_ne_nil_of_left_ne_nil h.nonempty _
  digits := List.forall_mem_append.mpr ⟨h.digits,digits⟩
  plain := .inr (by rw [List.head?_append_of_ne_nil _ h.nonempty]; exact h.head)

theorem take (h : Leading ds n) (k : Nat) : Whole (ds.take (k+1)) where
  nonempty := by simp [h.nonempty]
  digits c mem := h.digits c (List.mem_of_mem_take mem)
  plain := .inr (by rw [List.head?_take,if_neg (Nat.succ_ne_zero k)]; exact h.head)

/-- Zeros fill up to the point. -/
theorem reads_whole (h : Leading ds n) (negative : Bool) (k : Nat) (stops : Stops continues rest) :
    unsignedFrom negative (ds++zeros k++['.','0']++rest) =
      some (⟨negative,n*10^(k+1),-1,false⟩,rest) := by
  have zero : ∀ c ∈ zeros (k+1),c.isDigit = true := fun c mem => by
    rw [(List.mem_replicate.mp mem).2]
    rfl
  have more : zeros (k+1) = zeros k++['0'] := List.replicate_succ'
  have value : digitsValue (ds++zeros k++['0']) = n*10^(k+1) := by
    rw [List.append_assoc,← more,digitsValue_append,h.value,zeros,digitsValue_zeros,
      List.length_replicate,Nat.add_zero]
  rw [more,List.forall_mem_append] at zero
  have parts := unsignedFrom_parts negative (h.whole zero.1) zero.2 stops.plain (exponentFrom_stops stops)
  rw [value] at parts
  rw [List.append_assoc _ _ rest]
  exact parts

/-- The point stands among the digits. -/
theorem reads_pointed (h : Leading ds n) (negative : Bool) {k : Nat} (inside : k+1 < ds.length)
    (stops : Stops continues rest) :
    unsignedFrom negative (ds.take (k+1) ++ '.'::ds.drop (k+1)++rest) =
      some (⟨negative,n,(k : Int)+1-ds.length,false⟩,rest) := by
  have fraction : ds.drop (k+1) ≠ [] := by
    rw [Ne,List.drop_eq_nil_iff]
    omega
  have parts := unsignedFrom_parts negative (h.take k)
    (fun c (mem : c ∈ ds.drop (k+1)) => h.digits c (List.mem_of_mem_drop mem)) stops.plain
    (exponentFrom_stops stops)
  have exponent : (0 : Int)-(ds.drop (k+1)).length = k+1-ds.length := by
    rw [List.length_drop]
    omega
  rw [List.take_append_drop,h.value,exponent,pointed,if_neg fraction,
    List.isEmpty_eq_false_iff.mpr fraction] at parts
  rw [List.append_assoc]
  exact parts

/-- Zeros stand between the point and the digits. -/
theorem reads_below (h : Leading ds n) (negative : Bool) (k : Nat) (stops : Stops continues rest) :
    unsignedFrom negative (['0','.']++zeros k++ds++rest) =
      some (⟨negative,n,-(k : Int)-ds.length,false⟩,rest) := by
  have zero : Whole ['0'] := ⟨by simp,by simp,.inl rfl⟩
  have behind := h.zeros k
  have parts := unsignedFrom_parts negative zero behind.digits stops.plain (exponentFrom_stops stops)
  have exponent : (0 : Int)-(List.replicate k '0'++ds).length = -k-ds.length := by
    rw [List.length_append,List.length_replicate]
    omega
  have value : digitsValue (['0']++(List.replicate k '0'++ds)) = n := (behind.zeros 1).value
  rw [exponent,value,pointed,if_neg behind.nonempty,List.isEmpty_eq_false_iff.mpr behind.nonempty]
    at parts
  simpa [zeros] using parts

/-- One digit stands in front of the point, and the power of ten behind the digits. -/
theorem reads_scientific (h : Leading ds n) (negative : Bool) (e : Int)
    (stops : Stops continues rest) :
    unsignedFrom negative (ds.take 1++(if ds.length = 1 then [] else '.'::ds.drop 1) ++
      'e'::(if e < 0 then '-' else '+')::Nat.toDigits 10 e.natAbs++rest) =
        some (⟨negative,n,e+1-ds.length,false⟩,rest) := by
  have length := List.length_pos_iff.mpr h.nonempty
  have fraction : (if ds.length = 1 then [] else '.'::ds.drop 1) = pointed (ds.drop 1) := by
    have short : ds.length = 1 ↔ ds.drop 1 = [] := by
      rw [List.drop_eq_nil_iff]
      omega
    rw [pointed]
    simp only [short]
  have letter : Stops (fun c => c.isDigit || c == '.')
      ('e'::(if e < 0 then '-' else '+')::Nat.toDigits 10 e.natAbs++rest) := fun c mem => by
    obtain rfl := Option.mem_some.mp mem
    rfl
  have written := exponentFrom_written (decide (e < 0)) e.natAbs stops
  simp only [decide_eq_true_eq] at written
  have parts := unsignedFrom_parts negative (h.take 0)
    (fun c (mem : c ∈ ds.drop 1) => h.digits c (List.mem_of_mem_drop mem)) letter written
  have exponent : (if e < 0 then -(e.natAbs : Int) else e.natAbs)-(ds.drop 1).length =
      e+1-ds.length := by
    rw [List.length_drop]
    omega
  rw [List.take_append_drop,h.value,exponent,Bool.not_true,Bool.and_false] at parts
  rw [fraction,List.append_assoc,List.append_assoc]
  exact parts

end Leading

/-- A decimal is read from its text, perhaps with more digits and a smaller exponent. -/
theorem unsignedFrom_render (negative : Bool) (L : Layout) (e : Int) (pos : 0 < digits)
    (stops : Stops continues rest) : ∃ k : Nat,
      unsignedFrom negative (L.render digits e++rest) = some (⟨negative,digits*10^k,e-k,false⟩,rest) := by
  have h := leading_toDigits pos
  have length := List.length_pos_iff.mpr h.nonempty
  unfold Layout.render
  simp only
  generalize Nat.toDigits 10 digits = ds at *
  set lead : Int := ds.length-1+e with hlead
  have once : digits*10^0 = digits := by rw [pow_zero,Nat.mul_one]
  by_cases positional : L.least ≤ lead ∧ lead ≤ L.greatest
  · rw [if_pos positional]
    split_ifs with whole inside
    · have exponent : e-(e.toNat+1 : Nat) = -1 := by omega
      exact ⟨e.toNat+1,by rw [exponent]; exact h.reads_whole negative e.toNat stops⟩
    · have exponent : e-(0 : Nat) = lead.toNat+1-ds.length := by omega
      exact ⟨0,by rw [once,exponent]; exact h.reads_pointed negative (by omega) stops⟩
    · have exponent : e-(0 : Nat) = -((-lead-1).toNat : Int)-ds.length := by omega
      exact ⟨0,by rw [once,exponent]; exact h.reads_below negative _ stops⟩
  · have exponent : e-(0 : Nat) = lead+1-ds.length := by omega
    rw [if_neg positional]
    exact ⟨0,by rw [once,exponent]; exact h.reads_scientific negative lead stops⟩

end

section

variable {s body rest : List Char} {negative : Bool}

/-- What is read as a number begins with a digit. -/
theorem unsignedFrom_begins {r : Literal × List Char} (h : unsignedFrom negative s = some r) :
    ∃ c tail,s = c::tail ∧ c.isDigit = true := by
  have some : wholePart s ≠ [] := by
    intro none
    simp [unsignedFrom,none] at h
  cases s with
  | nil => exact absurd rfl some
  | cons c tail =>
    refine ⟨c,tail,rfl,?_⟩
    by_contra other
    refine some ?_
    unfold wholePart
    split
    next zero =>
      cases zero
      exact absurd rfl other
    next => simp [other]

theorem numberFrom_signed {l : Literal} (h : unsignedFrom negative (body++rest) = some (l,rest)) :
    numberFrom ((if negative then '-'::body else body)++rest) = some (l,rest) := by
  cases negative with
  | true => exact h
  | false =>
    obtain ⟨c,tail,front,digit⟩ := unsignedFrom_begins h
    have unsigned : (body++rest).head? ≠ some '-' := by
      rw [front]
      rintro ⟨rfl⟩
      cases digit
    exact (numberFrom_plain unsigned).trans h

theorem numberFrom_renderInt (n : Int) (stops : Stops continues rest) :
    numberFrom (renderInt n++rest) = some (⟨decide (n < 0),n.natAbs,0,true⟩,rest) := by
  have read := numberFrom_signed (unsignedFrom_toDigits (decide (n < 0)) n.natAbs stops)
  simp only [decide_eq_true_eq] at read
  exact read

/-- A float is read as the decimal that it is written as. -/
theorem numberFrom_renderFloat {F : Format} {m : Nat} (L : Layout) (negative : Bool)
    (finite : m < F.infinity) (narrow : F.Narrow) (stops : Stops continues rest) :
    ∃ digits e,numberFrom (renderFloat F L negative m++rest) =
      some (⟨negative,digits,e,false⟩,rest) ∧ ∀ G : Format,G.Narrow →
        G.ofDecimal digits e = G.ofDecimal (F.decimal m).1 (F.decimal m).2 := by
  have above := Nat.not_le.mpr finite
  by_cases zero : m = 0
  · have whole : Whole ['0'] := ⟨by simp,by simp,.inl rfl⟩
    have parts := unsignedFrom_parts negative whole
      (show ∀ c ∈ ['0'],c.isDigit = true by simp) stops.plain (exponentFrom_stops stops)
    have text : renderFloat F L negative m =
        if negative then '-'::['0','.','0'] else ['0','.','0'] := by
      rw [renderFloat,if_neg above,if_pos zero]
    rw [text,Format.decimal,if_pos zero]
    exact ⟨_,_,numberFrom_signed parts,fun _ _ => rfl⟩
  · have pos := (Format.ofDecimal_shortest narrow (Nat.pos_of_ne_zero zero) finite).1
    obtain ⟨k,parts⟩ := unsignedFrom_render negative L (F.shortest m).2 pos stops
    have text : renderFloat F L negative m = if negative then
        '-'::L.render (F.shortest m).1 (F.shortest m).2
        else L.render (F.shortest m).1 (F.shortest m).2 := by
      rw [renderFloat,if_neg above,if_neg zero]
    rw [text,Format.decimal,if_neg zero]
    exact ⟨_,_,numberFrom_signed parts,fun _ narrow => Format.ofDecimal_scale narrow _ _ k⟩

end

section

variable {s : List Char}

theorem AllVisible.take (h : AllVisible s) (n : Nat) : AllVisible (s.take n) :=
  fun c mem => h c (List.mem_of_mem_take mem)

theorem AllVisible.drop (h : AllVisible s) (n : Nat) : AllVisible (s.drop n) :=
  fun c mem => h c (List.mem_of_mem_drop mem)

theorem allVisible_toDigits (n : Nat) : AllVisible (Nat.toDigits 10 n) :=
  fun c mem => visible_digit ((digits_toDigits n).digits c mem)

theorem allVisible_zeros (n : Nat) : AllVisible (zeros n) := fun c mem => by
  rw [(List.mem_replicate.mp mem).2]
  decide

theorem allVisible_renderInt (n : Int) : AllVisible (renderInt n) := by
  unfold renderInt
  split <;> simp [allVisible_toDigits,Visible]

theorem allVisible_render (L : Layout) (digits : Nat) (e : Int) : AllVisible (L.render digits e) := by
  have all := allVisible_toDigits digits
  have tail : AllVisible (Nat.toDigits 10 digits).tail := List.drop_one ▸ all.drop 1
  unfold Layout.render
  simp only
  split_ifs <;>
    simp [all,tail,all.take,all.drop,allVisible_zeros,allVisible_toDigits,Visible]

theorem allVisible_renderFloat (F : Format) (L : Layout) (negative : Bool) (m : Nat) :
    AllVisible (renderFloat F L negative m) := by
  unfold renderFloat
  split_ifs <;> simp [allVisible_render,Visible]

end

end GlobeBins.Json

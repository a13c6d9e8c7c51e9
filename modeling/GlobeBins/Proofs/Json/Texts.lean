import Mathlib
import GlobeBins.Json.Value

namespace GlobeBins.Json

section

variable {c : Char} {reversed rest : List Char}

/-- A control character is read from the digits of its code. -/
theorem hexUnit?_control {n : Nat} (control : n < 0x20) :
    hexUnit? '0' '0' (Nat.digitChar (n/16)) (Nat.digitChar (n%16)) = some n := by
  interval_cases n <;> rfl

theorem stringFrom_escapeChar : stringFrom reversed none true (escapeChar c++rest) =
    stringFrom (c::reversed) none true rest := by
  unfold escapeChar
  split_ifs with special back tab line page return_ control
  · rcases special with rfl | rfl <;> rfl
  · subst back
    rfl
  · subst tab
    rfl
  · subst line
    rfl
  · subst page
    rfl
  · subst return_
    rfl
  · have code := hexUnit?_control control
    have low : isHighSurrogate c.toNat = false ∧ isLowSurrogate c.toNat = false := by
      unfold isHighSurrogate isLowSurrogate
      simp only [Bool.and_eq_false_iff,decide_eq_false_iff_not]
      omega
    have same : Char.ofNat c.toNat = c := Char.ofNat_toNat c
    simp [stringFrom,code,low,same]
  · obtain ⟨quote,slash⟩ := not_or.mp special
    rw [List.singleton_append,stringFrom.eq_4,if_neg (not_or.mpr ⟨control,slash⟩)]
    · rfl
    · exact quote
    · intros
      contradiction
    · intros
      contradiction

/-- The characters up to the closing quote. -/
theorem stringFrom_escaped (cs : List Char) :
    stringFrom reversed none true (cs.flatMap escapeChar ++ '"'::rest) =
      some (some (String.ofList (reversed.reverse++cs)),rest) := by
  induction cs generalizing reversed with
  | nil => simp [stringFrom]
  | cons c cs ih =>
    rw [List.flatMap_cons,List.append_assoc,stringFrom_escapeChar,ih,List.reverse_cons,
      List.append_assoc,List.singleton_append]

/-- A written text is read up to its closing quote. -/
theorem stringFrom_renderText (s : String) (rest : List Char) :
    ∃ tail,renderText s++rest = '"'::tail ∧ stringFrom [] none true tail = some (some s,rest) := by
  refine ⟨s.toList.flatMap escapeChar ++ '"'::rest,by simp [renderText],?_⟩
  rw [stringFrom_escaped,List.reverse_nil,List.nil_append,String.ofList_toList]

end

/-- A character that is no control character. -/
def Visible (c : Char) : Prop := 0x20 ≤ c.toNat

instance (c : Char) : Decidable (Visible c) := inferInstanceAs (Decidable (0x20 ≤ c.toNat))

def AllVisible (s : List Char) : Prop := ∀ c ∈ s,Visible c

section

variable {s t : List Char} {c : Char}

@[simp]
theorem allVisible_nil : AllVisible [] := List.forall_mem_nil _

@[simp]
theorem allVisible_cons : AllVisible (c::s) ↔ Visible c ∧ AllVisible s := List.forall_mem_cons

@[simp]
theorem allVisible_append : AllVisible (s++t) ↔ AllVisible s ∧ AllVisible t := List.forall_mem_append

theorem visible_digit (h : c.isDigit = true) : Visible c := by
  simp only [Char.isDigit,Bool.and_eq_true,decide_eq_true_eq,UInt32.le_iff_toNat_le] at h
  exact Nat.le_trans (by decide) h.1

theorem allVisible_escapeChar (c : Char) : AllVisible (escapeChar c) := by
  have hex {n : Nat} (small : n < 16) : Visible (Nat.digitChar n) := by
    unfold Visible
    interval_cases n <;> decide
  unfold escapeChar
  split_ifs with special back tab line page return_ control
  · rcases special with rfl | rfl <;> simp [Visible]
  · simp [Visible]
  · simp [Visible]
  · simp [Visible]
  · simp [Visible]
  · simp [Visible]
  · have high : Visible (Nat.digitChar (c.toNat/16)) := hex (by omega)
    have low : Visible (Nat.digitChar (c.toNat%16)) := hex (by omega)
    simp only [allVisible_cons]
    exact ⟨by decide,by decide,by decide,by decide,high,low,allVisible_nil⟩
  · simpa [Visible] using control

theorem allVisible_renderText (s : String) : AllVisible (renderText s) := by
  have quote : Visible '"' := by decide
  simp only [renderText,List.cons_append,allVisible_cons,allVisible_append]
  refine ⟨quote,fun d mem => ?_,quote,allVisible_nil⟩
  obtain ⟨c,_,inside⟩ := List.mem_flatMap.mp mem
  exact allVisible_escapeChar c d inside

end

end GlobeBins.Json

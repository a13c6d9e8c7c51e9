import GlobeBins.Statistic.Parameters
import GlobeBins.Proofs.Checked

namespace GlobeBins

/-- A parameter of a statistic, and which texts are values of it. -/
structure Parameter where
  key : String
  parses : List Char → Bool

/-- A parameter with the function that reads its values. -/
def Parameter.of {α : Type} (key : String) (read : List Char → Option α) : Parameter :=
  ⟨key,fun t => (read t).isSome⟩

@[simp] theorem Parameter.of_key {α : Type} (key : String) (read : List Char → Option α) :
    (Parameter.of key read).key = key := rfl

namespace Parameters

section

variable (p : Parameters)

/-- Nothing is given for the parameter, or a value of it with blanks around. -/
def Parses (x : Parameter) : Prop :=
  ∀ t,p.raw? x.key = some t → x.parses (Text.trimChars t.toList) = true

instance (x : Parameter) : Decidable (p.Parses x) :=
  decidable_of_iff ((p.raw? x.key).all fun t => x.parses (Text.trimChars t.toList))
    (Option.all_eq_true _ _)

/-- The value of a parameter, if one is given. -/
def value? {α : Type} (read : List Char → Option α) (key : String) : Option α :=
  (p.raw? key).bind fun t => read (Text.trimChars t.toList)

end

variable {α : Type} {p : Parameters} {read : List Char → Option α} {key : String}

theorem least?_eq_none {names : List String} : least? names = none ↔ names = [] := by
  cases names with
  | nil => simp [least?]
  | cons name names =>
    rw [least?]
    cases least? names <;> simp

theorem checkKnown_eq_ok {known : List String} :
    p.checkKnown known = .ok () ↔ ∀ e ∈ p.entries,e.1 ∈ known := by
  have none : least? ((p.entries.map Prod.fst).filter fun name => !known.contains name) = none ↔
      ∀ e ∈ p.entries,e.1 ∈ known := by
    simp [least?_eq_none]
  rw [← none,checkKnown]
  split
  next other => simp only [other,reduceCtorEq]
  next other => simp only [other]

theorem raw?_eq_none {known : List String} (all : ∀ e ∈ p.entries,e.1 ∈ known)
    (other : key ∉ known) : p.raw? key = none := by
  rw [raw?,Option.map_eq_none_iff,List.find?_eq_none]
  intro e mem same
  exact other (beq_iff_eq.mp same ▸ all e mem)

theorem value?_of_absent (h : p.raw? key = none) : p.value? read key = none := by
  rw [value?,h]
  rfl

/-- A value that is read is missing only where none is given. -/
theorem Parses.value?_eq_none (h : p.Parses (.of key read)) :
    p.value? read key = none ↔ p.raw? key = none := by
  refine ⟨fun none => ?_,value?_of_absent⟩
  cases given : p.raw? key with
  | none => rfl
  | some t =>
    have read := Option.isSome_iff_exists.mp (h t given)
    simp_all [value?]

theorem parses_of_value {x : α} (h : p.value? read key = some x) : p.Parses (.of key read) := by
  intro t given
  rw [value?,show p.raw? key = some t from given] at h
  exact Option.isSome_iff_exists.mpr ⟨x,h⟩

@[simp] theorem parses_text : p.Parses (.of key text?) := fun _ _ => rfl

theorem given_of_value {x : α} (h : p.value? read key = some x) : (p.raw? key).isSome = true := by
  cases given : p.raw? key with
  | none => simp [value?_of_absent given] at h
  | some t => rfl

theorem get?_eq_ok {x : Option α} :
    p.get? read key = .ok x ↔ p.Parses (.of key read) ∧ p.value? read key = x := by
  unfold get? Parses value? Parameter.of
  cases p.raw? key with
  | none => simp
  | some t => cases h : read (Text.trimChars t.toList) <;> simp [h]

theorem getD_eq_ok {fallback x : α} : p.getD read key fallback = .ok x ↔
    p.Parses (.of key read) ∧ (p.value? read key).getD fallback = x := by
  simp [getD,map_eq_ok,get?_eq_ok]

theorem require_eq_ok {x : α} : p.require read key = .ok x ↔ p.value? read key = some x := by
  simp only [require,bind_eq_ok,get?_eq_ok]
  constructor
  · intro h
    obtain ⟨y,⟨_,value⟩,h⟩ := h
    cases y with
    | none => cases h
    | some y =>
      cases h
      exact value
  · intro h
    exact ⟨some x,⟨parses_of_value h,h⟩,rfl⟩

variable {β : Type}

theorem checkKnown_then {known : List String} {m : Except Fault β} :
    (∃ b,(p.checkKnown known >>= fun _ => m) = .ok b) ↔
      (∀ e ∈ p.entries,e.1 ∈ known) ∧ ∃ b,m = .ok b := by
  have unit : (∃ u,p.checkKnown known = .ok u) ↔ ∀ e ∈ p.entries,e.1 ∈ known := by
    rw [← checkKnown_eq_ok]
    exact ⟨fun ⟨_,h⟩ => h,fun h => ⟨_,h⟩⟩
  rw [bind_exists,exists_and_right,unit]

theorem get?_then {f : Option α → Except Fault β} : (∃ b,(p.get? read key >>= f) = .ok b) ↔
    p.Parses (.of key read) ∧ ∃ b,f (p.value? read key) = .ok b := by
  simp only [bind_exists,get?_eq_ok,and_assoc,exists_and_left,exists_eq_left']

theorem getD_then {fallback : α} {f : α → Except Fault β} :
    (∃ b,(p.getD read key fallback >>= f) = .ok b) ↔
      p.Parses (.of key read) ∧ ∃ b,f ((p.value? read key).getD fallback) = .ok b := by
  simp only [bind_exists,getD_eq_ok,and_assoc,exists_and_left,exists_eq_left']

theorem require_then {f : α → Except Fault β} : (∃ b,(p.require read key >>= f) = .ok b) ↔
    ∃ x,p.value? read key = some x ∧ ∃ b,f x = .ok b := by
  simp only [bind_exists,require_eq_ok]

end Parameters

end GlobeBins

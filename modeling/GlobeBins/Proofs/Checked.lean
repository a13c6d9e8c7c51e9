import Mathlib

namespace GlobeBins

section

variable {ε α β : Type}

theorem ok_bind (a : α) (f : α → Except ε β) : Except.ok a >>= f = f a := rfl

theorem bind_eq_ok {x : Except ε α} {f : α → Except ε β} {b : β} :
    x >>= f = .ok b ↔ ∃ a,x = .ok a ∧ f a = .ok b := by
  cases x with
  | error e => simp [bind,Except.bind]
  | ok a => simp [bind,Except.bind]

theorem bind_eq_error {x : Except ε α} {f : α → Except ε β} {e : ε} :
    x >>= f = .error e ↔ x = .error e ∨ ∃ a,x = .ok a ∧ f a = .error e := by
  cases x with
  | error e' => simp [bind,Except.bind]
  | ok a => simp [bind,Except.bind]

theorem map_eq_ok {x : Except ε α} {f : α → β} {b : β} :
    x.map f = .ok b ↔ ∃ a,x = .ok a ∧ f a = b := by
  cases x with
  | error e => simp [Except.map]
  | ok a => simp [Except.map]

theorem bind_exists {x : Except ε α} {f : α → Except ε β} :
    (∃ b,x >>= f = .ok b) ↔ ∃ a,x = .ok a ∧ ∃ b,f a = .ok b := by
  cases x with
  | error e => simp [bind,Except.bind]
  | ok a => simp [ok_bind]

theorem map_exists {x : Except ε α} {f : α → β} : (∃ b,f <$> x = .ok b) ↔ ∃ a,x = .ok a := by
  cases x <;> simp [Functor.map,Except.map]

/-- A value that has to meet a condition. -/
theorem dite_exists {c : Prop} [Decidable c] {f : c → α} {e : ε} :
    (∃ a,(if h : c then .ok (f h) else .error e : Except ε α) = .ok a) ↔ c := by
  split <;> simp [*]

/-- A list is worked off exactly if each of its elements is. -/
theorem mapM_eq_ok {f : α → Except ε β} {l : List α} {m : List β} :
    l.mapM f = .ok m ↔ List.Forall₂ (fun a b => f a = .ok b) l m := by
  induction l generalizing m with
  | nil => simp [pure,Except.pure,eq_comm]
  | cons a l ih =>
    rw [List.mapM_cons,bind_eq_ok,List.forall₂_cons_left_iff]
    simp only [bind_eq_ok,ih,pure,Except.pure,Except.ok.injEq]
    constructor
    · intro h
      obtain ⟨b,hb,n,hn,rfl⟩ := h
      exact ⟨b,n,hb,hn,rfl⟩
    · intro h
      obtain ⟨b,n,hb,hn,rfl⟩ := h
      exact ⟨b,hb,n,hn,rfl⟩

theorem mapM_ok {f : α → Except ε β} {g : α → β} {l : List α} (h : ∀ a ∈ l,f a = .ok (g a)) :
    l.mapM f = .ok (l.map g) := by
  rw [mapM_eq_ok,List.forall₂_map_right_iff,List.forall₂_same]
  exact h

theorem mem_of_mapM {f : α → Except ε β} {l : List α} {m : List β} (h : l.mapM f = .ok m) {b : β}
    (hb : b ∈ m) : ∃ a ∈ l,f a = .ok b := by
  rw [mapM_eq_ok] at h
  induction h with
  | nil => cases hb
  | cons first _ ih =>
    rcases List.mem_cons.mp hb with rfl | hb
    · exact ⟨_,List.mem_cons_self,first⟩
    · obtain ⟨a,ha,eq⟩ := ih hb
      exact ⟨a,List.mem_cons_of_mem _ ha,eq⟩

theorem mapM_exists {f : α → Except ε β} {l : List α} :
    (∃ m,l.mapM f = .ok m) ↔ ∀ a ∈ l,∃ b,f a = .ok b := by
  simp only [mapM_eq_ok]
  constructor
  · intro h a ha
    obtain ⟨m,each⟩ := h
    induction each with
    | nil => cases ha
    | cons first _ ih =>
      rcases List.mem_cons.mp ha with rfl | ha
      · exact ⟨_,first⟩
      · exact ih ha
  · intro each
    induction l with
    | nil => exact ⟨[],.nil⟩
    | cons a l ih =>
      obtain ⟨b,first⟩ := each a List.mem_cons_self
      obtain ⟨m,rest⟩ := ih fun x hx => each x (List.mem_cons_of_mem a hx)
      exact ⟨b::m,.cons first rest⟩

/-- An element fails, and none that stands before it in the list does. -/
def FirstFailing (f : α → Except ε β) (l : List α) (a : α) (e : ε) : Prop :=
  ∃ before after,l = before++a::after ∧ (∀ b ∈ before,∃ c,f b = .ok c) ∧ f a = .error e

theorem FirstFailing.fails {f : α → Except ε β} {l : List α} {a : α} {e : ε}
    (h : FirstFailing f l a e) : f a = .error e := by
  obtain ⟨_,_,_,_,fails⟩ := h
  exact fails

theorem mapM_eq_error {f : α → Except ε β} {l : List α} {e : ε} :
    l.mapM f = .error e ↔ ∃ a,FirstFailing f l a e := by
  induction l with
  | nil => simp [FirstFailing,pure,Except.pure]
  | cons a l ih =>
    have rest (b : β) : (l.mapM f >>= fun bs => pure (b::bs)) = .error e ↔ l.mapM f = .error e := by
      rw [bind_eq_error]
      simp [pure,Except.pure]
    rw [List.mapM_cons,bind_eq_error]
    simp only [rest,ih]
    constructor
    · intro h
      obtain fails | ⟨b,here,x,before,after,rfl,good,fails⟩ := h
      · exact ⟨a,[],l,rfl,by simp,fails⟩
      · exact ⟨x,a::before,after,rfl,List.forall_mem_cons.mpr ⟨⟨b,here⟩,good⟩,fails⟩
    · intro h
      obtain ⟨x,before,after,eq,good,fails⟩ := h
      cases before with
      | nil =>
        cases eq
        exact .inl fails
      | cons b before =>
        cases eq
        obtain ⟨⟨c,here⟩,good⟩ := List.forall_mem_cons.mp good
        exact .inr ⟨c,here,x,before,after,rfl,good,fails⟩

end

end GlobeBins

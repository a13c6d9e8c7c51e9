import GlobeBins.Settings
import GlobeBins.Proofs.Calendar
import GlobeBins.Proofs.Numeric.Singles

namespace GlobeBins

/-- A mask of numbers, and a range with something between its ends. -/
structure Mask.Valid (m : Mask) : Prop where
  finite : ∀ x ∈ m.bounds,x.isFinite = true
  range : ∀ least greatest,m = .between least greatest → least < greatest

theorem Mask.violation?_eq_none {m : Mask} : m.violation? = none ↔ m.Valid := by
  have numbers : m.bounds.all Binary32.isFinite = true ↔ ∀ x ∈ m.bounds,x.isFinite = true :=
    List.all_eq_true
  unfold violation?
  split
  next finite =>
    have each := numbers.mp finite
    cases m with
    | between least greatest =>
      have order := Binary32.lt_iff_not_le (each least (by simp [bounds])) (each greatest (by simp [bounds]))
      constructor
      · intro none
        refine ⟨each,fun _ _ same => ?_⟩
        cases same
        rw [order]
        intro reversed
        simp [reversed] at none
      · intro valid
        simp [order.mp (valid.range _ _ rfl)]
    | _ => exact ⟨fun _ => ⟨each,nofun⟩,fun _ => rfl⟩
  next infinite =>
    refine ⟨nofun,fun valid => absurd (numbers.mpr valid.finite) infinite⟩

/-- Two dates in order. -/
def Period.Valid (p : Period) : Prop :=
  ∃ start finish,Date.parse? p.start = some start ∧ Date.parse? p.finish = some finish ∧
    start.UpTo finish

theorem Period.violation?_eq_none {p : Period} :
    Settings.periodViolation? p = none ↔ p.Valid := by
  unfold Settings.periodViolation? Valid
  cases start : Date.parse? p.start with
  | none => simp
  | some a =>
    cases finish : Date.parse? p.finish with
    | none => simp
    | some b => simp [← Date.isAfter_eq_false]

namespace Settings

/-- A name that stands earlier in the list, and none before it does. -/
def FirstRepeat (names : List String) (n : String) : Prop :=
  ∃ before after,names = before++n::after ∧ before.Nodup ∧ n ∈ before

theorem repeated?_eq_some {seen names : List String} {n : String} :
    repeated? seen names = some n ↔ ∃ before after,names = before++n::after ∧ before.Nodup ∧
      (∀ m ∈ before,m ∉ seen) ∧ (n ∈ before ∨ n ∈ seen) := by
  induction names generalizing seen with
  | nil => simp [repeated?]
  | cons m names ih =>
    rw [repeated?]
    by_cases here : m ∈ seen
    · rw [if_pos (by simpa using here)]
      constructor
      · intro h
        cases h
        exact ⟨[],names,rfl,.nil,List.forall_mem_nil _,.inr here⟩
      · intro h
        obtain ⟨before,after,eq,_,fresh,_⟩ := h
        cases before with
        | nil =>
          cases eq
          rfl
        | cons b before =>
          cases eq
          exact absurd here (fresh m (by simp))
    · rw [if_neg (by simpa using here),ih]
      constructor
      · intro h
        obtain ⟨before,after,rfl,distinct,fresh,again⟩ := h
        refine ⟨m::before,after,rfl,?_,?_,?_⟩
        · exact List.nodup_cons.mpr ⟨fun mem => fresh m mem (by simp),distinct⟩
        · exact List.forall_mem_cons.mpr ⟨here,fun k hk other => fresh k hk (by simp [other])⟩
        · simp only [List.mem_cons] at again ⊢
          tauto
      · intro h
        obtain ⟨before,after,eq,distinct,fresh,again⟩ := h
        cases before with
        | nil =>
          cases eq
          simp only [List.not_mem_nil,false_or] at again
          exact absurd again here
        | cons b before =>
          cases eq
          obtain ⟨own,distinct⟩ := List.nodup_cons.mp distinct
          refine ⟨before,after,rfl,distinct,?_,?_⟩
          · intro k hk
            have ne : k ≠ m := fun same => own (same ▸ hk)
            simpa [ne] using fresh k (by simp [hk])
          · simp only [List.mem_cons] at again ⊢
            tauto

theorem repeated?_iff {names : List String} {n : String} :
    repeated? [] names = some n ↔ FirstRepeat names n := by
  rw [repeated?_eq_some]
  simp [FirstRepeat]

theorem distinct_iff {names : List String} : repeated? [] names = none ↔ names.Nodup := by
  rw [repeated?_eq_none_iff]
  simp

/-- Every rule that is not on names. -/
structure Regular (s : Settings) : Prop where
  rows : 0 < s.rows ∧ s.rows%2 = 0
  reducers : 0 < s.reducers
  regionPartitions : 0 < s.regionPartitions
  vars : s.vars ≠ []
  statistics : s.statistics ≠ []
  masks : ∀ v ∈ s.vars,∀ m,v.mask = some m → m.Valid
  period : ∀ p,s.period = some p → p.Valid

structure Valid (s : Settings) : Prop extends Regular s where
  vars_distinct : (s.vars.map Variable.name).Nodup
  regions_distinct : (s.regions.map RegionSetting.name).Nodup

/-- What is reported where names repeat. -/
inductive Repeats (s : Settings) : Violation → Prop
  | ofVariable {n : String} : FirstRepeat (s.vars.map Variable.name) n → Repeats s (.variableRepeated n)
  | ofRegion {n : String} : (s.vars.map Variable.name).Nodup →
    FirstRepeat (s.regions.map RegionSetting.name) n → Repeats s (.regionRepeated n)

variable {s : Settings}

theorem rowsViolation?_eq_none {rows : Nat} :
    rowsViolation? rows = none ↔ 0 < rows ∧ rows%2 = 0 := by
  unfold rowsViolation?
  split
  next none => simp [none]
  next some =>
    split
    next odd => simp [odd]
    next even => exact ⟨fun _ => ⟨by omega,by omega⟩,fun _ => rfl⟩

theorem maskViolation?_eq_none {vs : List Variable} :
    maskViolation? vs = none ↔ ∀ v ∈ vs,∀ m,v.mask = some m → m.Valid := by
  simp only [maskViolation?,List.findSome?_eq_none_iff,Option.bind_eq_none_iff,
    Mask.violation?_eq_none]

theorem fieldViolations_eq_nil : s.fieldViolations = [] ↔
    0 < s.reducers ∧ 0 < s.regionPartitions ∧ s.vars ≠ [] ∧ s.statistics ≠ [] := by
  simp [fieldViolations,Nat.pos_iff_ne_zero]

theorem firstViolation?_eq_none : s.firstViolation? = none ↔ (0 < s.rows ∧ s.rows%2 = 0) ∧
    (∀ v ∈ s.vars,∀ m,v.mask = some m → m.Valid) ∧ (s.vars.map Variable.name).Nodup ∧
    (s.regions.map RegionSetting.name).Nodup ∧ ∀ p,s.period = some p → p.Valid := by
  simp only [firstViolation?,Option.orElse_eq_none,Option.map_eq_none_iff,Option.bind_eq_none_iff,
    rowsViolation?_eq_none,maskViolation?_eq_none,distinct_iff,Period.violation?_eq_none]

theorem violations_eq_nil : s.violations = [] ↔ s.Valid := by
  have last : s.firstViolation?.toList = [] ↔ s.firstViolation? = none := by simp
  rw [violations,List.append_eq_nil_iff,last,fieldViolations_eq_nil,firstViolation?_eq_none]
  constructor
  · intro h
    obtain ⟨⟨reducers,partitions,vars,statistics⟩,rows,masks,names,regions,period⟩ := h
    exact ⟨⟨rows,reducers,partitions,vars,statistics,masks,period⟩,names,regions⟩
  · intro h
    exact ⟨⟨h.reducers,h.regionPartitions,h.vars,h.statistics⟩,h.rows,h.masks,h.vars_distinct,
      h.regions_distinct,h.period⟩

theorem validate_eq_ok : s.validate = .ok () ↔ s.Valid := by
  rw [← violations_eq_nil,validate]
  cases s.violations <;> simp

/-- Of settings that keep the other rules only a name is reported. -/
theorem Regular.firstViolation? (h : s.Regular) {v : Violation} :
    s.firstViolation? = some v ↔ s.Repeats v := by
  have rows := rowsViolation?_eq_none.mpr h.rows
  have masks := maskViolation?_eq_none.mpr h.masks
  have period : s.period.bind periodViolation? = none := by
    simp only [Option.bind_eq_none_iff,Period.violation?_eq_none]
    exact h.period
  rw [Settings.firstViolation?,rows,masks,period]
  simp only [Option.orElse_eq_orElse,Option.orElse_eq_or,Option.none_or,Option.or_none,
    Option.or_eq_some_iff,Option.map_eq_some_iff,Option.map_eq_none_iff,repeated?_iff,distinct_iff]
  constructor
  · intro reported
    obtain ⟨n,first,rfl⟩ | ⟨distinct,n,first,rfl⟩ := reported
    · exact .ofVariable first
    · exact .ofRegion distinct first
  · intro repeats
    cases repeats with
    | ofVariable first => exact .inl ⟨_,first,rfl⟩
    | ofRegion distinct first => exact .inr ⟨distinct,_,first,rfl⟩

theorem Regular.validate_eq_error (h : s.Regular) {f : Fault} :
    s.validate = .error f ↔ ∃ v,s.Repeats v ∧ f = .settings [v] := by
  have none : s.fieldViolations = [] :=
    fieldViolations_eq_nil.mpr ⟨h.reducers,h.regionPartitions,h.vars,h.statistics⟩
  simp only [validate,violations,none,List.nil_append,← h.firstViolation?]
  cases s.firstViolation? <;> simp [eq_comm]

/-- Where names differ each one is found at its own place. -/
theorem indexOf?_of_distinct {vs : List Variable} (distinct : (vs.map Variable.name).Nodup) {i : Nat}
    {v : Variable} (h : vs[i]? = some v) : Variable.indexOf? vs v.name = some i := by
  obtain ⟨inside,rfl⟩ := List.getElem?_eq_some_iff.mp h
  refine List.findIdx?_eq_some_iff_getElem.mpr ⟨inside,beq_self_eq_true _,fun j before => ?_⟩
  have other := List.pairwise_iff_getElem.mp distinct j i (by simp; omega) (by simpa using inside) before
  simpa using other

end Settings

end GlobeBins

import GlobeBins.Ensemble
import GlobeBins.Proofs.Checked

namespace GlobeBins

/-- A computation has no other faults. -/
def FailsOnly {α : Type} (P : Fault → Prop) (x : Except Fault α) : Prop := ∀ f,x = .error f → P f

namespace FailsOnly

variable {α β : Type} {P : Fault → Prop}

theorem ok (a : α) : FailsOnly P (.ok a) := by
  intro f h
  cases h

theorem error {f : Fault} (h : P f) : FailsOnly P (.error f : Except Fault α) := by
  intro g same
  cases same
  exact h

theorem bind {x : Except Fault α} {k : α → Except Fault β} (first : FailsOnly P x)
    (rest : ∀ a,FailsOnly P (k a)) : FailsOnly P (x >>= k) := by
  intro f h
  rcases bind_eq_error.mp h with h | ⟨a,_,h⟩
  · exact first f h
  · exact rest a f h

theorem map {x : Except Fault α} (g : α → β) (h : FailsOnly P x) : FailsOnly P (g <$> x) := by
  intro f fails
  cases x with
  | ok a => cases fails
  | error e => exact h f (congrArg Except.error (Except.error.inj fails))

theorem imp {Q : Fault → Prop} {x : Except Fault α} (h : FailsOnly P x) (weaker : ∀ f,P f → Q f) :
    FailsOnly Q x := fun f fails => weaker f (h f fails)

end FailsOnly

namespace Parameters

variable {α : Type} {p : Parameters}

/-- The fault is that of one of the parameters. -/
def Blamed (p : Parameters) (f : Fault) : Prop := ∃ key cause,f = p.fault key cause

theorem blamed (key : String) (cause : ParameterFault) : p.Blamed (p.fault key cause) :=
  ⟨key,cause,rfl⟩

theorem checkKnown_fails (known : List String) : FailsOnly p.Blamed (p.checkKnown known) := by
  unfold checkKnown
  split
  · exact .error (blamed _ _)
  · exact .ok _

theorem get?_fails (read : List Char → Option α) (name : String) :
    FailsOnly p.Blamed (p.get? read name) := by
  unfold get?
  split
  · exact .ok _
  · split
    · exact .ok _
    · exact .error (blamed _ _)

theorem getD_fails (read : List Char → Option α) (name : String) (fallback : α) :
    FailsOnly p.Blamed (p.getD read name fallback) :=
  (get?_fails read name).map fun x => x.getD fallback

theorem require_fails (read : List Char → Option α) (name : String) :
    FailsOnly p.Blamed (p.require read name) := by
  refine (get?_fails read name).bind fun x => ?_
  split
  · exact .ok _
  · exact .error (blamed _ _)

end Parameters

section

open Parameters

variable {name : String} {source : Nat} {p : Parameters}

theorem Average.ofParameters_fails : FailsOnly p.Blamed (ofParameters name source p) := by
  refine (checkKnown_fails _).bind fun _ => (getD_fails double? _ _).bind fun weight => ?_
  split
  · exact (getD_fails single? _ _).bind fun _ => .ok _
  · exact .error (blamed _ _)

theorem LogAverage.ofParameters_fails : FailsOnly p.Blamed (ofParameters name source p) :=
  (checkKnown_fails _).bind fun _ => .ok _

theorem Extremes.ofParameters_fails : FailsOnly p.Blamed (ofParameters name source p) :=
  (checkKnown_fails _).bind fun _ => (getD_fails single? _ _).bind fun _ => .ok _

theorem Total.ofParameters_fails : FailsOnly p.Blamed (ofParameters name source p) :=
  (checkKnown_fails _).bind fun _ => .ok _

theorem BurnedDay.windowOf_fails : FailsOnly p.Blamed (windowOf p) := by
  refine (get?_fails int32? _).bind fun year => (get?_fails byte? _).bind fun month => ?_
  split
  · split
    · exact .ok _
    · exact .error (blamed _ _)
  · exact .error (blamed _ _)
  · exact .error (blamed _ _)
  · exact (getD_fails int32? _ _).bind fun _ => (getD_fails int32? _ _).bind fun _ => .ok _

theorem BurnedDay.ofParameters_fails (confidence : Option Nat) :
    FailsOnly p.Blamed (ofParameters name source confidence p) := by
  refine (checkKnown_fails _).bind fun _ => windowOf_fails.bind fun window => ?_
  obtain ⟨first,last⟩ := window
  dsimp only
  split
  · exact .ok _
  · exact .error (blamed _ _)

theorem LandCover.ofParameters_fails : FailsOnly p.Blamed (ofParameters name source p) := by
  refine (checkKnown_fails _).bind fun _ => (require_fails word? _).bind fun classes => ?_
  split
  · exact .ok _
  · exact .error (blamed _ _)

end

namespace Statistic

/-- Why the statistic at a position among the settings cannot be made. -/
inductive Refused (vs : List Variable) (index : Nat) (s : StatisticSetting) : Fault → Prop
  | unknownType : canonicalName s.typeName ∉ typeNames →
    Refused vs index s (.unknownStatistic index s.typeName)
  | unknownVariable (name : String) : canonicalName s.typeName ∈ typeNames →
    Variable.indexOf? vs name = none →
    Refused vs index s (.unknownVariable (canonicalName s.typeName) name)
  | parameter (key : String) (cause : ParameterFault) : canonicalName s.typeName ∈ typeNames →
    Refused vs index s ((⟨canonicalName s.typeName,s.parameters⟩ : Parameters).fault key cause)

variable {vs : List Variable} {index : Nat} {s : StatisticSetting}

theorem Refused.isConfiguration {f : Fault} (h : Refused vs index s f) :
    f.isConfiguration = true := by
  cases h <;> rfl

theorem resolve_fails (known : canonicalName s.typeName ∈ typeNames) (name : String) :
    FailsOnly (Refused vs index s) (resolve vs (canonicalName s.typeName) name) := by
  unfold resolve
  split
  next => exact .ok _
  next none => exact .error (.unknownVariable name known none)

theorem of_blamed (known : canonicalName s.typeName ∈ typeNames) (f : Fault)
    (h : Parameters.Blamed ⟨canonicalName s.typeName,s.parameters⟩ f) : Refused vs index s f := by
  obtain ⟨key,cause,rfl⟩ := h
  exact .parameter key cause known

/-- A statistic of a known type that reads one variable. -/
theorem source_fails {σ : Type} {make : Nat → Except Fault σ} {statistic : σ → Statistic}
    (known : canonicalName s.typeName ∈ typeNames)
    (own : ∀ i,FailsOnly (Parameters.Blamed ⟨canonicalName s.typeName,s.parameters⟩) (make i)) :
    FailsOnly (Refused vs index s)
      (do statistic <$> make (← resolve vs (canonicalName s.typeName) s.input)) := by
  exact (resolve_fails known _).bind fun i => .map _ ((own i).imp (of_blamed known))

theorem ofSetting_fails : FailsOnly (Refused vs index s) (ofSetting vs index s) := by
  have listed {name : String} (h : canonicalName s.typeName = name) (mem : name ∈ typeNames) :
      canonicalName s.typeName ∈ typeNames := h ▸ mem
  simp only [ofSetting]
  split
  next h => exact source_fails (listed h (by decide)) fun _ => Average.ofParameters_fails
  split
  next h => exact source_fails (listed h (by decide)) fun _ => LogAverage.ofParameters_fails
  split
  next h => exact source_fails (listed h (by decide)) fun _ => Extremes.ofParameters_fails
  split
  next h => exact source_fails (listed h (by decide)) fun _ => Total.ofParameters_fails
  split
  next h =>
    have known := listed h (by decide)
    refine ((Parameters.get?_fails _ _).imp (of_blamed known)).bind fun name => ?_
    cases name with
    | none => exact source_fails known fun _ => BurnedDay.ofParameters_fails _
    | some name =>
      refine ((resolve_fails known name).map some).bind fun i => ?_
      exact source_fails known fun _ => BurnedDay.ofParameters_fails _
  split
  next h => exact source_fails (listed h (by decide)) fun _ => LandCover.ofParameters_fails
  next avg log extremes total burned land =>
    refine .error (.unknownType ?_)
    simp [typeNames,avg,log,extremes,total,burned,land]

end Statistic

end GlobeBins

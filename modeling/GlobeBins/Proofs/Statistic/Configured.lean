import GlobeBins.Proofs.Calendar
import GlobeBins.Proofs.Statistic.Faults
import GlobeBins.Proofs.Statistic.Parameters
import GlobeBins.Proofs.Statistic.Reads

namespace GlobeBins

open Parameters

namespace BurnedDay

/-- First day of a window that is given by its ends. -/
def firstOf (p : Parameters) : Int := (p.value? int32? "min_doy").getD 1

def lastOf (p : Parameters) : Int := (p.value? int32? "max_doy").getD 366

/-- Both a year and a month are given. -/
def Monthly (p : Parameters) : Prop :=
  (p.raw? "year").isSome = true ∧ (p.raw? "month").isSome = true

/-- The window that values give. -/
inductive Window (p : Parameters) : Int → Int → Prop
  | ofMonth {year : Int} {month : Nat} : p.value? int32? "year" = some year →
    p.value? byte? "month" = some month → CalendarMonth year month →
    Window p (daysBefore year month+1 : Nat) (daysBefore year month+monthLength year month : Nat)
  | ofDays : p.value? int32? "year" = none → p.value? byte? "month" = none →
    Window p (firstOf p) (lastOf p)

/-- What values may be: a month with its year, or neither and days in order. -/
inductive Admitted (p : Parameters) : Prop
  | ofMonth {year : Int} {month : Nat} : p.value? int32? "year" = some year →
    p.value? byte? "month" = some month → CalendarMonth year month → Admitted p
  | ofDays : p.value? int32? "year" = none → p.value? byte? "month" = none →
    1 ≤ firstOf p ∧ firstOf p ≤ lastOf p ∧ lastOf p ≤ 366 → Admitted p

variable {p : Parameters}

theorem admitted_iff :
    Admitted p ↔ ∃ first last,Window p first last ∧ 1 ≤ first ∧ first ≤ last ∧ last ≤ 366 := by
  constructor
  · intro h
    cases h with
    | ofMonth year month calendar =>
      have range := monthWindow_range calendar
      exact ⟨_,_,.ofMonth year month calendar,by omega,by omega,by omega⟩
    | ofDays year month range => exact ⟨_,_,.ofDays year month,range⟩
  · intro h
    obtain ⟨first,last,window,range⟩ := h
    cases window with
    | ofMonth year month calendar => exact .ofMonth year month calendar
    | ofDays year month => exact .ofDays year month range

theorem windowOf_eq_ok {first last : Int} : windowOf p = .ok (first,last) ↔
    (p.Parses (.of "year" int32?) ∧ p.Parses (.of "month" byte?) ∧
      (¬Monthly p → p.Parses (.of "min_doy" int32?) ∧ p.Parses (.of "max_doy" int32?))) ∧
      Window p first last := by
  simp only [windowOf,bind_eq_ok,get?_eq_ok]
  constructor
  · intro h
    obtain ⟨_,⟨year,rfl⟩,_,⟨month,rfl⟩,h⟩ := h
    split at h
    -- of the four cases two have a window, and only the last one reads its ends
    next y m given given' =>
      have monthly : Monthly p := ⟨given_of_value given,given_of_value given'⟩
      by_cases calendar : CalendarMonth y m
      · rw [monthWindow?_eq calendar] at h
        cases h
        exact ⟨⟨year,month,absurd monthly⟩,.ofMonth given given' calendar⟩
      · rw [monthWindow?_eq_none calendar] at h
        cases h
    next => cases h
    next => cases h
    next given given' =>
      simp only [bind_eq_ok,getD_eq_ok] at h
      obtain ⟨_,⟨low,rfl⟩,_,⟨high,rfl⟩,h⟩ := h
      cases h
      exact ⟨⟨year,month,fun _ => ⟨low,high⟩⟩,.ofDays given given'⟩
  · intro h
    obtain ⟨⟨year,month,days⟩,window⟩ := h
    refine ⟨_,⟨year,rfl⟩,_,⟨month,rfl⟩,?_⟩
    cases window with
    | ofMonth given given' calendar =>
      simp only [given,given',monthWindow?_eq calendar]
    | ofDays given given' =>
      have daily : ¬Monthly p := by
        intro monthly
        simp [Monthly,year.value?_eq_none.mp given] at monthly
      obtain ⟨low,high⟩ := days daily
      simp only [given,given',bind_eq_ok,getD_eq_ok]
      exact ⟨_,⟨low,rfl⟩,_,⟨high,rfl⟩,rfl⟩

end BurnedDay

namespace Statistic

/-- Kinds of statistics. -/
inductive Kind where
  | average
  | logAverage
  | extremes
  | total
  | burnedDay
  | landCover
  deriving DecidableEq

namespace Kind

def name : Kind → String
  | average => "AVG"
  | logAverage => "AVG_ML"
  | extremes => "MIN_MAX"
  | total => "SUM"
  | burnedDay => "JD"
  | landCover => "LC_CLASS"

/-- All parameters of a kind. -/
def parameters : Kind → List Parameter
  | average => [.of "weight_coeff" double?,.of "fill_value" single?]
  | logAverage | total => []
  | extremes => [.of "fill_value" single?]
  | burnedDay => [.of "confidence_variable" text?,.of "year" int32?,.of "month" byte?,
      .of "min_doy" int32?,.of "max_doy" int32?]
  | landCover => [.of "num_classes" word?]

/-- Which values a kind takes. -/
def Admits (p : Parameters) : Kind → Prop
  | average => ∀ x,p.value? double? "weight_coeff" = some x → x.isFinite = true
  | burnedDay => BurnedDay.Admitted p
  | landCover => ∃ n,p.value? word? "num_classes" = some n ∧ 1 ≤ n ∧ n ≤ 256
  | _ => True

/-- What is given to a statistic of the kind. -/
def given (kind : Kind) (s : StatisticSetting) : Parameters := ⟨kind.name,s.parameters⟩

theorem name_injective {kind other : Kind} (h : kind.name = other.name) : kind = other := by
  cases kind <;> cases other <;> revert h <;> decide

end Kind

def kind : Statistic → Kind
  | average _ => .average
  | logAverage _ => .logAverage
  | extremes _ => .extremes
  | total _ => .total
  | burnedDay _ => .burnedDay
  | landCover _ => .landCover

theorem kind_name (x : Statistic) : x.kind.name = x.typeName := by
  cases x <;> rfl

/-- Beside a month the days of a window do not count. -/
def Overridden (p : Parameters) (kind : Kind) (key : String) : Prop :=
  kind = .burnedDay ∧ (key = "min_doy" ∨ key = "max_doy") ∧ BurnedDay.Monthly p

namespace Kind

/-- Parameters that a statistic of the kind can be made of. -/
@[mk_iff]
structure Takes (kind : Kind) (p : Parameters) : Prop where
  known : ∀ e ∈ p.entries,e.1 ∈ kind.parameters.map Parameter.key
  parsed : ∀ x ∈ kind.parameters,¬Overridden p kind x.key → p.Parses x
  admitted : kind.Admits p

end Kind

end Statistic

section

open Statistic

variable {name : String} {source : Nat} {p : Parameters}

theorem Average.ofParameters_made :
    (∃ x,ofParameters name source p = .ok x) ↔ Kind.average.Takes p := by
  have finite : ((p.value? double? "weight_coeff").getD 0).isFinite = true ↔
      Kind.average.Admits p := by
    have zero : (0 : Binary64).isFinite = true := by decide
    rw [Kind.Admits]
    cases p.value? double? "weight_coeff" <;> simp [zero]
  simp only [ofParameters,checkKnown_then,getD_then,Kind.takes_iff,← finite]
  split
  next is => simp [getD_then,is,Kind.parameters,Overridden]
  next is => simp [is]

theorem LogAverage.ofParameters_made :
    (∃ x,ofParameters name source p = .ok x) ↔ Kind.logAverage.Takes p := by
  simp [ofParameters,checkKnown_then,Kind.takes_iff,Kind.parameters,Kind.Admits]

theorem Extremes.ofParameters_made :
    (∃ x,ofParameters name source p = .ok x) ↔ Kind.extremes.Takes p := by
  simp [ofParameters,checkKnown_then,getD_then,Kind.takes_iff,Kind.parameters,Kind.Admits,Overridden]

theorem Total.ofParameters_made :
    (∃ x,ofParameters name source p = .ok x) ↔ Kind.total.Takes p := by
  simp [ofParameters,checkKnown_then,Kind.takes_iff,Kind.parameters,Kind.Admits]

theorem BurnedDay.ofParameters_made {confidence : Option Nat} :
    (∃ x,ofParameters name source confidence p = .ok x) ↔ Kind.burnedDay.Takes p := by
  simp only [ofParameters,checkKnown_then,bind_exists,dite_exists,Prod.exists,windowOf_eq_ok,
    and_assoc,exists_and_left,← admitted_iff,Kind.takes_iff,Kind.Admits]
  simp [Kind.parameters,Overridden,imp_and,and_assoc]

theorem LandCover.ofParameters_made :
    (∃ x,ofParameters name source p = .ok x) ↔ Kind.landCover.Takes p := by
  have made : (∃ x,ofParameters name source p = .ok x) ↔
      (∀ e ∈ p.entries,e.1 ∈ ["num_classes"]) ∧ Kind.landCover.Admits p := by
    simp only [ofParameters,checkKnown_then,require_then,dite_exists,Kind.Admits]
  rw [made]
  constructor
  · intro h
    obtain ⟨known,n,value,range⟩ := h
    exact ⟨known,List.forall_mem_singleton.mpr fun _ => parses_of_value value,n,value,range⟩
  · intro h
    exact ⟨h.known,h.admitted⟩

end

namespace Statistic

variable {vs : List Variable} {index : Nat} {s : StatisticSetting} {kind : Kind}

/-- A setting that asks for a statistic of a kind, names variables and has parameters for it. -/
structure Configured (vs : List Variable) (s : StatisticSetting) (kind : Kind) : Prop where
  type : canonicalName s.typeName = kind.name
  input : ∃ v ∈ vs,v.name = s.input
  confidence : ∀ n,(kind.given s).value? text? "confidence_variable" = some n →
    ∃ v ∈ vs,v.name = n
  taken : kind.Takes (kind.given s)

theorem indexOf?_made {n : String} :
    (∃ i,Variable.indexOf? vs n = some i) ↔ ∃ v ∈ vs,v.name = n := by
  rw [← Option.isSome_iff_exists,Variable.indexOf?,List.findIdx?_isSome]
  simp

/-- A statistic of a name and of parameters that do not depend on where the name stands. -/
theorem source_made {σ : Type} {typeName name : String} {make : Nat → Except Fault σ}
    {statistic : σ → Statistic} {P : Prop} (own : ∀ i,(∃ x,make i = .ok x) ↔ P) :
    (∃ x,(do statistic <$> make (← resolve vs typeName name)) = .ok x) ↔
      (∃ v ∈ vs,v.name = name) ∧ P := by
  simp only [bind_exists,resolve_eq_ok,map_exists,own,exists_and_right,indexOf?_made]

/-- Only burned days have a second variable. -/
theorem plain_made {σ : Type} {make : Nat → Except Fault σ} {statistic : σ → Statistic}
    (type : canonicalName s.typeName = kind.name)
    (other : "confidence_variable" ∉ kind.parameters.map Parameter.key)
    (own : ∀ i,(∃ x,make i = .ok x) ↔ kind.Takes (kind.given s)) :
    (∃ x,(do statistic <$> make (← resolve vs kind.name s.input)) = .ok x) ↔
      Configured vs s kind := by
  rw [source_made own]
  constructor
  · intro h
    obtain ⟨input,taken⟩ := h
    have none : (kind.given s).value? text? "confidence_variable" = none :=
      value?_of_absent (raw?_eq_none taken.known other)
    exact ⟨type,input,by simp [none],taken⟩
  · intro h
    exact ⟨h.input,h.taken⟩

/-- Wherever the second variable stands, it has to be one. -/
theorem burnedDay_made {confidence : Option Nat} (type : canonicalName s.typeName = "JD")
    (named : ∀ n,(Kind.burnedDay.given s).value? text? "confidence_variable" = some n →
      ∃ v ∈ vs,v.name = n) :
    (∃ x,(do
      let i ← resolve vs "JD" s.input
      burnedDay <$> BurnedDay.ofParameters s.input i confidence (Kind.burnedDay.given s)) = .ok x) ↔
      Configured vs s .burnedDay := by
  rw [source_made fun _ => BurnedDay.ofParameters_made]
  constructor
  · intro h
    exact ⟨type,h.1,named,h.2⟩
  · intro h
    exact ⟨h.input,h.taken⟩

theorem ofSetting_of_kind (type : canonicalName s.typeName = kind.name) :
    (∃ x,ofSetting vs index s = .ok x) ↔ Configured vs s kind := by
  cases kind with
  | average =>
    simp only [ofSetting,type,Kind.name,reduceIte,String.reduceEq]
    exact plain_made type (by decide) fun _ => Average.ofParameters_made
  | logAverage =>
    simp only [ofSetting,type,Kind.name,reduceIte,String.reduceEq]
    exact plain_made type (by decide) fun _ => LogAverage.ofParameters_made
  | extremes =>
    simp only [ofSetting,type,Kind.name,reduceIte,String.reduceEq]
    exact plain_made type (by decide) fun _ => Extremes.ofParameters_made
  | total =>
    simp only [ofSetting,type,Kind.name,reduceIte,String.reduceEq]
    exact plain_made type (by decide) fun _ => Total.ofParameters_made
  | landCover =>
    simp only [ofSetting,type,Kind.name,reduceIte,String.reduceEq]
    exact plain_made type (by decide) fun _ => LandCover.ofParameters_made
  | burnedDay =>
    simp only [ofSetting,type,Kind.name,reduceIte,String.reduceEq,get?_then,parses_text,true_and]
    split
    -- the second variable is resolved before the input, so its failure is told apart first
    next n given =>
      rw [bind_exists]
      constructor
      · intro h
        obtain ⟨c,resolved,made⟩ := h
        obtain ⟨i,found,_⟩ := map_eq_ok.mp resolved
        have named := indexOf?_made.mp ⟨i,resolve_eq_ok.mp found⟩
        refine (burnedDay_made type fun m given' => ?_).mp made
        exact Option.some.inj (given.symm.trans given') ▸ named
      · intro h
        obtain ⟨i,found⟩ := indexOf?_made.mpr (h.confidence n given)
        refine ⟨some i,map_eq_ok.mpr ⟨i,resolve_eq_ok.mpr found,rfl⟩,?_⟩
        exact (burnedDay_made type h.confidence).mpr h
    next given => exact burnedDay_made type (by simp [Kind.given,Kind.name,given])

/-- A setting makes a statistic exactly if it asks for one of a kind that takes its parameters and names
variables; else the fault is one of the configuration. The days of a window that stand beside a month
are the only values that may be anything. -/
theorem ofSetting_configured (vs : List Variable) (index : Nat) (s : StatisticSetting) :
    ((∃ x,ofSetting vs index s = .ok x) ↔ ∃ kind,Configured vs s kind) ∧
      ∀ f,ofSetting vs index s = .error f → Refused vs index s f ∧ f.isConfiguration = true := by
  refine ⟨⟨fun made => ?_,fun configured => ?_⟩,fun f fails => ?_⟩
  · obtain ⟨x,h⟩ := made
    have type : canonicalName s.typeName = x.kind.name := by
      rw [kind_name,(ofSetting_named h).type]
    exact ⟨x.kind,(ofSetting_of_kind type).mp ⟨x,h⟩⟩
  · obtain ⟨kind,h⟩ := configured
    exact (ofSetting_of_kind h.type).mpr h
  · have refused := ofSetting_fails f fails
    exact ⟨refused,refused.isConfiguration⟩

/-- Burned days from day 10 on, asked for with blanks. -/
def daily : StatisticSetting := ⟨" jd ","doy",[("min_doy"," 10 "),("confidence_variable"," cl")]⟩

/-- One is made; a day that is no number is refused. -/
theorem ofSetting_configured_daily :
    (∃ x,ofSetting [⟨"doy",none⟩,⟨"cl",none⟩] 0 daily = .ok x) ∧
      ofSetting [⟨"doy",none⟩] 0 ⟨"JD","doy",[("min_doy","x")]⟩ =
        .error (.parameter "JD" "min_doy" "x" .unparsed) ∧
      (Fault.parameter "JD" "min_doy" "x" .unparsed).isConfiguration = true := by
  have refused : ofSetting [⟨"doy",none⟩] 0 ⟨"JD","doy",[("min_doy","x")]⟩ =
      .error (.parameter "JD" "min_doy" "x" .unparsed) := by decide +kernel
  have admitted : BurnedDay.Admitted (Kind.burnedDay.given daily) :=
    .ofDays (by decide) (by decide) (by decide +kernel)
  have taken : Kind.burnedDay.Takes (Kind.burnedDay.given daily) := by
    have parsed : ∀ x ∈ Kind.burnedDay.parameters,(Kind.burnedDay.given daily).Parses x := by
      decide +kernel
    exact ⟨by decide,fun x mem _ => parsed x mem,admitted⟩
  have configured : Configured [⟨"doy",none⟩,⟨"cl",none⟩] daily .burnedDay := by
    have second : (Kind.burnedDay.given daily).value? text? "confidence_variable" = some "cl" := by
      decide
    refine ⟨by decide,⟨⟨"doy",none⟩,by decide,rfl⟩,fun n given => ?_,taken⟩
    obtain rfl := Option.some.inj (second.symm.trans given)
    exact ⟨⟨"cl",none⟩,by decide,rfl⟩
  exact ⟨(ofSetting_configured _ 0 daily).1.mpr ⟨_,configured⟩,refused,
    ((ofSetting_configured _ 0 _).2 _ refused).2⟩

/-- February 2020 beside a day that is no number. -/
def monthly : StatisticSetting := ⟨"JD","doy",[("year","2020"),("month","2"),("min_doy","x")]⟩

/-- The day is a parameter of the kind and no value of it, and nothing is said. -/
theorem monthly_made :
    ofSetting [⟨"doy",none⟩] 0 monthly = .ok (.burnedDay ⟨"doy",0,none,32,60,by decide⟩) ∧
      ¬∃ kind,Configured [⟨"doy",none⟩] monthly kind ∧
        ∀ x ∈ kind.parameters,(kind.given monthly).Parses x := by
  refine ⟨by decide +kernel,fun h => ?_⟩
  obtain ⟨kind,configured,parsed⟩ := h
  have name : Kind.burnedDay.name = canonicalName monthly.typeName := by decide
  obtain rfl := Kind.name_injective (name.trans configured.type)
  have day := parsed (.of "min_doy" int32?) (by simp [Kind.parameters]) "x" (by decide)
  exact absurd day (by decide +kernel)

end Statistic

end GlobeBins

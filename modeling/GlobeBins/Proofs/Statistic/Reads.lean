import GlobeBins.Ensemble
import GlobeBins.Proofs.Checked

namespace GlobeBins

namespace Statistic

/-- Positions of the samples that a statistic reads. -/
def reads : Statistic → List Nat
  | average s => [s.source]
  | logAverage s => [s.source]
  | extremes s => [s.source]
  | total s => [s.source]
  | burnedDay s => s.source::s.confidence.toList
  | landCover s => [s.source]

end Statistic

section

variable {name : String} {source : Nat} {p : Parameters}

theorem Average.ofParameters_source {s : Average} (h : ofParameters name source p = .ok s) :
    s.source = source := by
  simp only [ofParameters,bind_eq_ok] at h
  obtain ⟨_,_,_,_,h⟩ := h
  split at h
  next =>
    obtain ⟨_,_,h⟩ := bind_eq_ok.mp h
    cases h
    rfl
  next => cases h

theorem LogAverage.ofParameters_source {s : LogAverage} (h : ofParameters name source p = .ok s) :
    s.source = source := by
  obtain ⟨_,_,h⟩ := bind_eq_ok.mp h
  cases h
  rfl

theorem Extremes.ofParameters_source {s : Extremes} (h : ofParameters name source p = .ok s) :
    s.source = source := by
  simp only [ofParameters,bind_eq_ok] at h
  obtain ⟨_,_,_,_,h⟩ := h
  cases h
  rfl

theorem Total.ofParameters_source {s : Total} (h : ofParameters name source p = .ok s) :
    s.source = source := by
  obtain ⟨_,_,h⟩ := bind_eq_ok.mp h
  cases h
  rfl

theorem BurnedDay.ofParameters_source {confidence : Option Nat} {s : BurnedDay}
    (h : ofParameters name source confidence p = .ok s) :
    s.source = source ∧ s.confidence = confidence := by
  simp only [ofParameters,bind_eq_ok] at h
  obtain ⟨_,_,_,_,h⟩ := h
  split at h
  next =>
    cases h
    exact ⟨rfl,rfl⟩
  next => cases h

theorem LandCover.ofParameters_source {s : LandCover} (h : ofParameters name source p = .ok s) :
    s.source = source := by
  simp only [ofParameters,bind_eq_ok] at h
  obtain ⟨_,_,_,_,h⟩ := h
  split at h
  next =>
    cases h
    rfl
  next => cases h

end

namespace Statistic

variable {vs : List Variable} {setting : StatisticSetting} {s : Statistic}

/-- What a statistic has of its setting: its type, the input that it reads before any other sample, and
no samples but those of variables. -/
structure Named (vs : List Variable) (setting : StatisticSetting) (s : Statistic) : Prop where
  type : s.typeName = canonicalName setting.typeName
  input : ∃ i,Variable.indexOf? vs setting.input = some i ∧ s.reads.head? = some i
  within : ∀ i ∈ s.reads,i < vs.length

theorem indexOf?_lt {name : String} {i : Nat} (h : Variable.indexOf? vs name = some i) :
    i < vs.length := (List.findIdx?_eq_some_iff_getElem.mp h).1

theorem resolve_eq_ok {typeName name : String} {i : Nat} :
    resolve vs typeName name = .ok i ↔ Variable.indexOf? vs name = some i := by
  unfold resolve
  cases Variable.indexOf? vs name <;> simp

/-- A statistic that is made for the position of a name. -/
theorem made_of_name {σ : Type} {typeName name : String} {make : Nat → Except Fault σ}
    {statistic : σ → Statistic} (h : (do statistic <$> make (← resolve vs typeName name)) = .ok s) :
    ∃ i x,Variable.indexOf? vs name = some i ∧ make i = .ok x ∧ s = statistic x := by
  obtain ⟨i,resolved,h⟩ := bind_eq_ok.mp h
  obtain ⟨x,made,rfl⟩ := map_eq_ok.mp h
  exact ⟨i,x,resolve_eq_ok.mp resolved,made,rfl⟩

/-- Most statistics read one sample. -/
theorem named_of_single {i : Nat} (type : s.typeName = canonicalName setting.typeName)
    (found : Variable.indexOf? vs setting.input = some i) (reads : s.reads = [i]) :
    Named vs setting s := by
  refine ⟨type,⟨i,found,by rw [reads]; rfl⟩,?_⟩
  rw [reads,List.forall_mem_singleton]
  exact indexOf?_lt found

theorem burnedDay_named {typeName : String} {confidence : Option Nat} {p : Parameters}
    (type : "JD" = canonicalName setting.typeName) (low : ∀ i ∈ confidence,i < vs.length)
    (h : (do
      let i ← resolve vs typeName setting.input
      burnedDay <$> BurnedDay.ofParameters setting.input i confidence p) = .ok s) :
    Named vs setting s := by
  obtain ⟨i,x,found,made,rfl⟩ := made_of_name h
  obtain ⟨rfl,rfl⟩ := BurnedDay.ofParameters_source made
  refine ⟨type,⟨_,found,rfl⟩,List.forall_mem_cons.mpr ⟨indexOf?_lt found,fun j hj => low j ?_⟩⟩
  simpa using hj

theorem ofSetting_named {index : Nat} (h : ofSetting vs index setting = .ok s) :
    Named vs setting s := by
  simp only [ofSetting] at h
  split at h
  next type =>
    obtain ⟨i,x,found,made,rfl⟩ := made_of_name h
    exact named_of_single type.symm found (by rw [reads,Average.ofParameters_source made])
  split at h
  next type =>
    obtain ⟨i,x,found,made,rfl⟩ := made_of_name h
    exact named_of_single type.symm found (by rw [reads,LogAverage.ofParameters_source made])
  split at h
  next type =>
    obtain ⟨i,x,found,made,rfl⟩ := made_of_name h
    exact named_of_single type.symm found (by rw [reads,Extremes.ofParameters_source made])
  split at h
  next type =>
    obtain ⟨i,x,found,made,rfl⟩ := made_of_name h
    exact named_of_single type.symm found (by rw [reads,Total.ofParameters_source made])
  split at h
  next type =>
    obtain ⟨confidence,_,h⟩ := bind_eq_ok.mp h
    cases confidence with
    | none => exact burnedDay_named type.symm (by simp) h
    | some name =>
      obtain ⟨_,resolved,h⟩ := bind_eq_ok.mp h
      obtain ⟨j,found,rfl⟩ := map_eq_ok.mp resolved
      have low := indexOf?_lt (resolve_eq_ok.mp found)
      exact burnedDay_named type.symm (by simpa using low) h
  split at h
  next type =>
    obtain ⟨i,x,found,made,rfl⟩ := made_of_name h
    exact named_of_single type.symm found (by rw [reads,LandCover.ofParameters_source made])
  next => cases h

variable {samples others : List Binary32}

/-- Only the samples that a statistic reads matter to it. -/
theorem addSamples_congr (same : ∀ i ∈ s.reads,samples[i]? = others[i]?) (v : List Binary32) :
    s.addSamples samples v = s.addSamples others v := by
  cases s with
  | burnedDay b =>
    have source := same b.source (by simp [reads])
    cases h : b.confidence with
    | none => simp only [addSamples,BurnedDay.addSample,source,h]
    | some i =>
      have confidence := same i (by simp [reads,h])
      simp only [addSamples,BurnedDay.addSample,source,h,confidence]
  | _ s => simp only [addSamples,foldSample,same s.source (by simp [reads])]

theorem accepts_congr (same : ∀ i ∈ s.reads,samples[i]? = others[i]?) :
    s.accepts samples = s.accepts others := by
  cases s with
  | logAverage s => simp only [accepts,LogAverage.accepts,same s.source (by simp [reads])]
  | _ => rfl

end Statistic

/-- Statistics of a job read samples of its variables only. -/
theorem Ensemble.ofSettings_reads {vs : List Variable} {settings : List StatisticSetting}
    {e : Ensemble} (h : ofSettings vs settings = .ok e) :
    ∀ s ∈ e.statistics,∀ i ∈ s.reads,i < vs.length := by
  obtain ⟨ss,made,h⟩ := bind_eq_ok.mp h
  cases h
  intro s hs
  obtain ⟨_,_,made⟩ := mem_of_mapM made hs
  exact (Statistic.ofSetting_named made).within

end GlobeBins

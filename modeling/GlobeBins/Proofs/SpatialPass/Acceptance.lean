import GlobeBins.Proofs.Job.Made
import GlobeBins.Proofs.SpatialPass.Reference

namespace GlobeBins

namespace Mask

/-- A finite sample that the mask says is missing. -/
inductive Marks : Mask → Binary32 → Prop
  | value {x y : Binary32} (same : x.equal y = true) : Marks (.value y) x
  | values {x y : Binary32} {ys : List Binary32} (mem : y ∈ ys) (same : x.equal y = true) :
    Marks (.values ys) x
  | atLeast {x least : Binary32} (below : x < least) : Marks (.atLeast least) x
  | atMost {x greatest : Binary32} (above : greatest < x) : Marks (.atMost greatest) x
  | low {x least greatest : Binary32} (below : x < least) : Marks (.between least greatest) x
  | high {x least greatest : Binary32} (above : greatest < x) : Marks (.between least greatest) x

theorem hides_iff {m : Mask} {x : Binary32} :
    m.hides x = true ↔ x.isFinite = false ∨ m.Marks x := by
  unfold hides
  rw [Bool.or_eq_true,Bool.not_eq_true']
  refine or_congr_right ⟨fun h => ?_,fun h => ?_⟩
  · cases m with
    | value y => exact .value h
    | values ys =>
      obtain ⟨y,mem,same⟩ := List.any_eq_true.mp h
      exact .values mem same
    | atLeast least => exact .atLeast (decide_eq_true_eq.mp h)
    | atMost greatest => exact .atMost (decide_eq_true_eq.mp h)
    | between least greatest =>
      rcases Bool.or_eq_true_iff.mp h with h | h
      · exact .low (decide_eq_true_eq.mp h)
      · exact .high (decide_eq_true_eq.mp h)
  · cases h with
    | value same => exact same
    | values mem same => exact List.any_eq_true.mpr ⟨_,mem,same⟩
    | atLeast below => exact decide_eq_true_eq.mpr below
    | atMost above => exact decide_eq_true_eq.mpr above
    | low below => simp [below]
    | high above => simp [above]

end Mask

namespace Variable

/-- The sample is a number that the variable's mask does not mark. -/
structure Lets (v : Variable) (x : Binary32) : Prop where
  finite : x.isFinite = true
  unmarked : ∀ m,v.mask = some m → ¬m.Marks x

variable {vs : List Variable} {samples others : List Binary32}

theorem lets_iff {v : Variable} {x : Binary32} : v.Lets x ↔ Mask.hidden v.mask x = false := by
  have parts : v.Lets x ↔ x.isFinite = true ∧ ∀ m,v.mask = some m → ¬m.Marks x :=
    ⟨fun h => ⟨h.finite,h.unmarked⟩,fun h => ⟨h.1,h.2⟩⟩
  rw [parts]
  cases mask : v.mask with
  | none => simp [Mask.hidden]
  | some m => simp [Mask.hidden,← Bool.not_eq_true,Mask.hides_iff]

theorem refuses_iff : refuses vs samples = false ↔ vs.length ≤ samples.length ∧
    ∀ (i : Nat) v x,vs[i]? = some v → samples[i]? = some x → v.Lets x := by
  rw [refuses,Bool.or_eq_false_iff,decide_eq_false_iff_not,Nat.not_lt]
  refine and_congr_right fun _ => ?_
  rw [List.any_eq_false]
  constructor
  · intro h i v x hv hx
    have mem : (v,x) ∈ vs.zip samples :=
      List.mem_of_getElem? (List.getElem?_zip_eq_some.mpr ⟨hv,hx⟩)
    exact lets_iff.mpr (Bool.eq_false_iff.mpr (h _ mem))
  · intro h p mem
    obtain ⟨i,found⟩ := List.getElem?_of_mem mem
    obtain ⟨hv,hx⟩ := List.getElem?_zip_eq_some.mp found
    exact Bool.eq_false_iff.mp (lets_iff.mp (h i p.1 p.2 hv hx))

theorem getElem?_of_take {i n : Nat} (same : samples.take n = others.take n) (low : i < n) :
    samples[i]? = others[i]? := by
  rw [← List.getElem?_take_of_lt low,same,List.getElem?_take_of_lt low]

/-- As many samples as there are variables are looked at. -/
theorem refuses_congr (same : samples.take vs.length = others.take vs.length) :
    refuses vs samples = refuses vs others := by
  have lengths := congrArg List.length same
  rw [List.length_take,List.length_take] at lengths
  have enough : vs.length ≤ samples.length ↔ vs.length ≤ others.length := by omega
  have accepted : refuses vs samples = false ↔ refuses vs others = false := by
    rw [refuses_iff,refuses_iff,enough]
    refine and_congr_right fun _ => forall_congr' fun i => forall_congr' fun v => ?_
    refine forall_congr' fun x => forall_congr' fun hv => ?_
    rw [getElem?_of_take same (List.getElem?_eq_some_iff.mp hv).1]
  rw [Bool.eq_iff_iff,← not_iff_not]
  simpa only [Bool.not_eq_true] using accepted

end Variable

namespace Statistic

variable {s : Statistic} {samples : List Binary32}

/-- What a setting asks of the samples: a mean of logarithms needs a positive one. -/
def Positive (vs : List Variable) (samples : List Binary32) (setting : StatisticSetting) : Prop :=
  canonicalName setting.typeName = "AVG_ML" →
    ∃ i x,Variable.indexOf? vs setting.input = some i ∧ samples[i]? = some x ∧ 0 < x

theorem logAverage_accepts_iff {i : Nat} :
    LogAverage.accepts i samples = true ↔ ∃ x,samples[i]? = some x ∧ 0 < x := by
  unfold LogAverage.accepts
  cases samples[i]? with
  | none => simp
  | some x =>
    constructor
    · exact fun h => ⟨x,rfl,of_decide_eq_true h⟩
    · intro h
      obtain ⟨y,same,pos⟩ := h
      cases same
      exact decide_eq_true pos

/-- A statistic accepts the samples that its setting allows. -/
theorem accepts_iff {vs : List Variable} {index : Nat} {setting : StatisticSetting}
    (made : ofSetting vs index setting = .ok s) :
    s.accepts samples = true ↔ Positive vs samples setting := by
  have named := ofSetting_named made
  obtain ⟨i,found,first⟩ := named.input
  unfold Positive
  rw [← named.type,found]
  cases s with
  | logAverage l =>
    obtain rfl : l.source = i := Option.some.inj first
    simp [accepts,typeName,logAverage_accepts_iff]
  | _ => simp [accepts,typeName]

end Statistic

namespace Ensemble

variable {e : Ensemble} {samples others : List Binary32}

theorem accepts_iff {vs : List Variable} {settings : List StatisticSetting}
    (made : ofSettings vs settings = .ok e) :
    e.accepts samples = true ↔ ∀ setting ∈ settings,Statistic.Positive vs samples setting := by
  have each := mapM_eq_ok.mp (ofSettings_eq_ok.mp made)
  have listed : settings = settings.zipIdx.map Prod.fst := (List.zipIdx_map_fst 0 settings).symm
  rw [accepts,List.all_eq_true,listed]
  generalize settings.zipIdx = ps,e.statistics = ss at each
  induction each with
  | nil => simp
  | cons first _ ih =>
    rw [List.forall_mem_cons,List.map_cons,List.forall_mem_cons]
    exact and_congr (Statistic.accepts_iff first) ih

/-- Samples within the first ones are all that matter to statistics which read no others. -/
theorem addSamples_congr {n : Nat} (within : ∀ s ∈ e.statistics,∀ i ∈ s.reads,i < n)
    (same : samples.take n = others.take n) (b : SpatialBin Binary32) :
    e.addSamples samples b = e.addSamples others b := by
  unfold addSamples
  congr 1
  generalize b.features = v
  generalize e.statistics = ss at within
  induction ss generalizing v with
  | nil => rfl
  | cons s ss ih =>
    have own : ∀ i ∈ s.reads,samples[i]? = others[i]? :=
      fun i hi => Variable.getElem?_of_take same (within s List.mem_cons_self i hi)
    rw [onSlices,onSlices,Statistic.addSamples_congr own,
      ih _ fun t ht => within t (List.mem_cons_of_mem s ht)]

theorem accepts_congr {n : Nat} (within : ∀ s ∈ e.statistics,∀ i ∈ s.reads,i < n)
    (same : samples.take n = others.take n) : e.accepts samples = e.accepts others := by
  rw [Bool.eq_iff_iff,accepts,accepts,List.all_eq_true,List.all_eq_true]
  refine forall₂_congr fun s hs => ?_
  rw [Statistic.accepts_congr fun i hi => Variable.getElem?_of_take same (within s hs i hi)]

end Ensemble

namespace Scheme

/-- An observation that the settings of a job can use. -/
structure Usable (vs : List Variable) (settings : List StatisticSetting) (o : Observation) : Prop where
  lat : o.lat.isFinite = true
  lon : o.lon.isFinite = true
  enough : vs.length ≤ o.samples.length
  lets : ∀ (i : Nat) v x,vs[i]? = some v → o.samples[i]? = some x → v.Lets x
  positive : ∀ setting ∈ settings,Statistic.Positive vs o.samples setting

/-- Observations of one position that agree in the samples of all variables. -/
structure Alike (c : Scheme) (o other : Observation) : Prop where
  lat : o.lat = other.lat
  lon : o.lon = other.lon
  samples : o.samples.take c.vars.length = other.samples.take c.vars.length

variable {c : Scheme} {settings : List StatisticSetting} {o other : Observation}

/-- Every variable has a sample that it lets through. -/
theorem Usable.sample {vs : List Variable} (usable : Usable vs settings o) {i : Nat}
    (low : i < vs.length) : ∃ v x,vs[i]? = some v ∧ o.samples[i]? = some x ∧ v.Lets x := by
  have there : i < o.samples.length := Nat.lt_of_lt_of_le low usable.enough
  have found := List.getElem?_eq_getElem low
  have sampled := List.getElem?_eq_getElem there
  exact ⟨_,_,found,sampled,usable.lets i _ _ found sampled⟩

theorem admits_iff (made : Ensemble.ofSettings c.vars settings = .ok c.ensemble) :
    c.admits o = true ↔ Usable c.vars settings o := by
  rw [admits,Bool.and_eq_true,Bool.and_eq_true,Bool.and_eq_true,Bool.not_eq_true',
    Variable.refuses_iff,Ensemble.accepts_iff made]
  constructor
  · intro h
    obtain ⟨⟨⟨lat,lon⟩,enough,lets⟩,positive⟩ := h
    exact ⟨lat,lon,enough,lets,positive⟩
  · exact fun h => ⟨⟨⟨h.lat,h.lon⟩,h.enough,h.lets⟩,h.positive⟩

namespace Alike

theorem admits (alike : c.Alike o other) (resolved : c.Resolved) :
    c.admits o = c.admits other := by
  rw [Scheme.admits,Scheme.admits,alike.lat,alike.lon,Variable.refuses_congr alike.samples,
    Ensemble.accepts_congr resolved alike.samples]

theorem offer (alike : c.Alike o other) (resolved : c.Resolved) (p : SpatialPass) :
    p.offer c o = p.offer c other := by
  have cell : c.cellOf o = c.cellOf other := by rw [cellOf,cellOf,alike.lat,alike.lon]
  unfold SpatialPass.offer
  rw [alike.admits resolved,cell]
  simp only [Ensemble.addSamples_congr resolved alike.samples]

theorem map_admits {os others : List Observation} (alike : List.Forall₂ c.Alike os others)
    (resolved : c.Resolved) : os.map c.admits = others.map c.admits := by
  induction alike with
  | nil => rfl
  | cons first _ ih => rw [List.map_cons,List.map_cons,first.admits resolved,ih]

/-- Two runs over observations that are alike, from one state, go through the same states. -/
theorem foldl {os others : List Observation} (alike : List.Forall₂ c.Alike os others)
    (resolved : c.Resolved) (p : SpatialPass) :
    os.foldl (SpatialPass.offer c) p = others.foldl (SpatialPass.offer c) p := by
  induction alike generalizing p with
  | nil => rfl
  | cons first _ ih => rw [List.foldl_cons,List.foldl_cons,first.offer resolved,ih]

end Alike

/-- What a pass makes of an observation, given the settings of its statistics. -/
structure Screens (c : Scheme) (settings : List StatisticSetting) : Prop where
  accepts : ∀ o,c.admits o = true ↔ Usable c.vars settings o
  counters : ∀ (p : SpatialPass) o,(p.offer c o).observations = p.observations+1 ∧
    (p.offer c o).skipped = if c.admits o then p.skipped else p.skipped+1
  refused : ∀ (p : SpatialPass) o,c.admits o = false → (p.offer c o).bins = p.bins
  /-- Statistics find samples where they read, and none that is masked. -/
  samples : ∀ o,c.admits o = true → ∀ s ∈ c.ensemble.statistics,∀ i ∈ s.reads,
    ∃ v x,c.vars[i]? = some v ∧ o.samples[i]? = some x ∧ v.Lets x
  folds : ∀ o,c.admits o = true → ∀ s ∈ c.ensemble.statistics,∀ v : List Binary32,
    v.length = s.spatialWidth → Guarded.addSamples o.samples v s = .ok (s.addSamples o.samples v)
  /-- No other samples reach a vector. -/
  reads : ∀ s ∈ c.ensemble.statistics,∀ samples others v : List Binary32,
    (∀ i ∈ s.reads,samples[i]? = others[i]?) → s.addSamples samples v = s.addSamples others v
  /-- Every bin of every state is made of accepted observations. -/
  bins : ∀ os i b,(os.foldl (SpatialPass.offer c) .empty).bins[i]? = some b →
    b = c.ensemble.gathered i ((c.inCell os i).map Observation.samples) ∧
      ∀ o ∈ c.inCell os i,Usable c.vars settings o
  /-- Samples beyond those of the variables have no influence, now or later. -/
  alike : ∀ os others,List.Forall₂ c.Alike os others → os.map c.admits = others.map c.admits ∧
    (∀ p,os.foldl (SpatialPass.offer c) p = others.foldl (SpatialPass.offer c) p) ∧
    SpatialPass.run c os = SpatialPass.run c others

/-- Statistics that are made of settings screen observations as the settings say. -/
theorem screens (made : Ensemble.ofSettings c.vars settings = .ok c.ensemble) :
    c.Screens settings := by
  have resolved : c.Resolved := Ensemble.ofSettings_reads made
  constructor
  case accepts => exact fun o => admits_iff made
  case counters =>
    intro p o
    by_cases admitted : c.admits o = true <;> simp [SpatialPass.offer,admitted]
  case refused => exact fun p o => SpatialPass.offer_of_not_admits p
  case samples =>
    exact fun o admitted s hs i hi => ((admits_iff made).mp admitted).sample (resolved s hs i hi)
  case folds =>
    intro o admitted s hs v width
    refine Guarded.addSamples_eq s (fun i hi => ?_) width
    exact Nat.lt_of_lt_of_le (resolved s hs i hi) (samples_of_admits admitted)
  case reads => exact fun s _ _ _ v same => Statistic.addSamples_congr same v
  case bins =>
    intro os i b found
    rw [SpatialPass.bins_getElem?] at found
    split at found
    next => cases found
    next =>
      cases found
      refine ⟨?_,fun o mem => (admits_iff made).mp (mem_inCell.mp mem).2.1⟩
      rw [gathered,Ensemble.gathered,List.foldl_map]
  case alike =>
    intro os others alike
    have states := Alike.foldl alike resolved
    refine ⟨Alike.map_admits alike resolved,states,?_⟩
    rw [SpatialPass.run,SpatialPass.run,states]

/-- A third sample, which is no number, where there are two variables. -/
theorem screens_third : ∃ c : Scheme,
    c.vars = [⟨"x",some (.atLeast 1)⟩,⟨"y",none⟩] ∧
    c.ensemble = ⟨[.logAverage ⟨"x",0⟩,.total ⟨"y",1⟩]⟩ ∧
    Ensemble.ofSettings c.vars [⟨" avg_ml","x",[]⟩,⟨"SUM","y",[]⟩] = .ok c.ensemble ∧
    c.Screens [⟨" avg_ml","x",[]⟩,⟨"SUM","y",[]⟩] ∧
    c.admits ⟨0,0,0,[2,3,Binary32.nan]⟩ = true ∧ c.admits ⟨0,0,0,[0,3]⟩ = false ∧
    SpatialPass.run c [⟨0,0,0,[2,3,Binary32.nan]⟩] = SpatialPass.run c [⟨0,0,0,[2,3]⟩] := by
  let c : Scheme := ⟨.ofColumns #[3,3] (by decide) (by decide),
    [⟨"x",some (.atLeast 1)⟩,⟨"y",none⟩],⟨[.logAverage ⟨"x",0⟩,.total ⟨"y",1⟩]⟩⟩
  have made : Ensemble.ofSettings c.vars [⟨" avg_ml","x",[]⟩,⟨"SUM","y",[]⟩] = .ok c.ensemble := by
    decide +kernel
  have screened := screens made
  have alike : c.Alike ⟨0,0,0,[2,3,Binary32.nan]⟩ ⟨0,0,0,[2,3]⟩ := ⟨rfl,rfl,rfl⟩
  obtain ⟨_,_,same⟩ := screened.alike _ _ (.cons alike .nil)
  exact ⟨c,rfl,rfl,made,screened,by decide +kernel,by decide +kernel,same⟩

end Scheme

end GlobeBins

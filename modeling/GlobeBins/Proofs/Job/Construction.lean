import GlobeBins.Proofs.Job.Made
import GlobeBins.Proofs.Region.Membership
import GlobeBins.Proofs.Statistic.Faults

namespace GlobeBins

theorem Ensemble.ofSettings_eq_error {vs : List Variable} {settings : List StatisticSetting}
    {f : Fault} : ofSettings vs settings = .error f ↔
      settings.zipIdx.mapM (fun p => Statistic.ofSetting vs p.2 p.1) = .error f := by
  simp [ofSettings,bind_eq_error,pure,Except.pure]

namespace Region

variable {g : Grid} {s : RegionSetting}

/-- A region that cannot be made is named. -/
theorem ofSetting_fails : FailsOnly (fun f => ∃ cause,f = .region s.name cause) (ofSetting g s) := by
  unfold ofSetting
  split
  next => exact .error ⟨_,rfl⟩
  next => exact .error ⟨_,rfl⟩
  next =>
    unfold ofPolygons
    split
    next => exact .error ⟨_,rfl⟩
    next =>
      split
      next => exact .ok _
      next => exact .error ⟨_,rfl⟩

theorem ofSetting_texts {r : Region Binary64} (h : ofSetting g s = .ok r) :
    r.name = s.name ∧ r.wkt = s.wkt := by
  obtain ⟨_,_,h⟩ := ofSetting_eq_ok.mp h
  obtain ⟨_,_,_,rfl⟩ := ofPolygons_eq_ok.mp h
  exact ⟨rfl,rfl⟩

theorem ofSettings_eq_error {ss : List RegionSetting} {f : Fault} : ofSettings g ss = .error f ↔
    ss = [] ∧ f = .noRegions ∨ ss.mapM (ofSetting g) = .error f := by
  cases ss <;> simp [ofSettings,pure,Except.pure,eq_comm]

end Region

namespace Settings

/-- Settings are accepted exactly if they keep every rule. If they break none but that names differ, the
first name that repeats an earlier one is reported, of the variables before that of the regions. In
accepted settings, and so in the job made of them, a variable is found at its place by its name. -/
theorem validate_verdict (s : Settings) : (s.validate = .ok () ↔ s.Valid) ∧
    (s.Regular → ∀ f,s.validate = .error f ↔ ∃ v,s.Repeats v ∧ f = .settings [v]) ∧
    (s.validate = .ok () → ∀ i v,s.vars[i]? = some v → Variable.indexOf? s.vars v.name = some i) ∧
    ∀ id job,Job.make id s = .ok job → job.scheme.vars = s.vars := by
  refine ⟨validate_eq_ok,fun regular _ => regular.validate_eq_error,?_,?_⟩
  · intro accepted i v place
    exact indexOf?_of_distinct (validate_eq_ok.mp accepted).vars_distinct place
  · intro id job made
    exact (Job.made made).vars_eq

/-- Two names of variables and one of a region repeat. -/
def doubled : Settings :=
  {plain with
    vars := [⟨"x",none⟩,⟨"y",none⟩,⟨"y",none⟩,⟨"x",none⟩],
    regions := plain.regions++plain.regions}

theorem validate_verdict_doubled :
    (doubled.Regular ∧ doubled.validate = .error (.settings [.variableRepeated "y"])) ∧
      (plain.validate = .ok () ∧ plain.vars[0]? = some ⟨"x",none⟩ ∧
        Variable.indexOf? plain.vars "x" = some 0) ∧
      ∃ job,Job.make "plain" plain = .ok job ∧ job.scheme.vars = plain.vars := by
  have regular : doubled.Regular :=
    ⟨by decide,by decide,by decide,by decide,by decide,by simp [doubled],nofun⟩
  have first : doubled.Repeats (.variableRepeated "y") :=
    .ofVariable ⟨["x","y"],["x"],rfl,by decide,by decide⟩
  obtain ⟨job,made⟩ := plain_made
  exact ⟨⟨regular,((validate_verdict doubled).2.1 regular _).mpr ⟨_,first,rfl⟩⟩,
    ⟨by decide,rfl,(validate_verdict plain).2.2.1 (by decide) 0 ⟨"x",none⟩ rfl⟩,
    job,made,(validate_verdict plain).2.2.2 "plain" job made⟩

end Settings

namespace Job

/-- Each statistic that is asked for can be made. -/
def StatisticsMade (s : Settings) : Prop :=
  ∀ p ∈ s.statistics.zipIdx,∃ x,Statistic.ofSetting s.vars p.2 p.1 = .ok x

/-- Every check accepts the settings. -/
structure Acceptable (s : Settings) : Prop where
  valid : s.validate = .ok ()
  statistics : StatisticsMade s
  regions_ne : s.regions ≠ []
  regions : ∀ g,Grid.make s.rows = .ok g → ∀ x ∈ s.regions,∃ r,Region.ofSetting g x = .ok r

/-- The fault of the first check that does not accept the settings. -/
inductive Refused (s : Settings) : Fault → Prop
  | settings : s.violations ≠ [] → Refused s (.settings s.violations)
  | statistic (x : StatisticSetting) (i : Nat) (f : Fault) : s.validate = .ok () →
    FirstFailing (fun p => Statistic.ofSetting s.vars p.2 p.1) s.statistics.zipIdx (x,i) f →
    Statistic.Refused s.vars i x f → Refused s f
  | noRegions : s.validate = .ok () → StatisticsMade s → s.regions = [] → Refused s .noRegions
  | region (g : Grid) (x : RegionSetting) (cause : GeometryFault) : s.validate = .ok () →
    StatisticsMade s → Grid.make s.rows = .ok g →
    FirstFailing (Region.ofSetting g) s.regions x (.region x.name cause) →
    Refused s (.region x.name cause)

/-- What a job has of its settings. -/
structure Kept (s : Settings) (job : Job) : Prop where
  grid_ok : Grid.make s.rows = .ok job.scheme.grid
  statistics : List.Forall₂ (fun p x => Statistic.ofSetting s.vars p.2 p.1 = .ok x)
    s.statistics.zipIdx job.scheme.ensemble.statistics
  regions : List.Forall₂ (fun x r => Region.ofSetting job.scheme.grid x = .ok r ∧
    r.name = x.name ∧ r.wkt = x.wkt) s.regions job.regions
  spatialFeatures : job.spatialCodec.features = job.scheme.ensemble.spatialNames.length
  regionFeatures : job.regionCodec.features = job.scheme.ensemble.temporalNames.length

variable {s : Settings} {f : Fault} {id : String} {job : Job}

theorem Refused.isConfiguration (h : Refused s f) : f.isConfiguration = true := by
  cases h with
  | statistic x i f valid first why => exact why.isConfiguration
  | _ => rfl

theorem valid_of_make (h : make id s = .ok job) : s.validate = .ok () := by
  simp only [make,makeWith,bind_eq_ok] at h
  obtain ⟨⟨⟩,valid,_⟩ := h
  exact valid

theorem acceptable_of_make (h : make id s = .ok job) : Acceptable s := by
  have parts := made h
  obtain ⟨regions_ne,regions⟩ := Region.ofSettings_eq_ok.mp parts.regions_ok
  refine ⟨valid_of_make h,mapM_exists.mp ⟨_,Ensemble.ofSettings_eq_ok.mp parts.ensemble_ok⟩,
    regions_ne,?_⟩
  intro g grid
  obtain rfl := Except.ok.inj (parts.grid_ok.symm.trans grid)
  exact mapM_exists.mp ⟨_,regions⟩

theorem make_of_acceptable (h : Acceptable s) (few : s.regions.length ≤ maxRegions) (id : String) :
    ∃ job,make id s = .ok job := by
  obtain ⟨g,grid⟩ := Settings.grid_of_valid Binary64.cos h.valid
  obtain ⟨xs,statistics⟩ := mapM_exists.mpr h.statistics
  obtain ⟨rs,regions⟩ := mapM_exists.mpr (h.regions g grid)
  have length := (mapM_eq_ok.mp regions).length_eq
  refine ⟨⟨id,s,⟨g,s.vars,⟨xs⟩⟩,rs⟩,?_⟩
  simp only [make,makeWith,bind_eq_ok]
  refine ⟨(),h.valid,g,grid,⟨xs⟩,Ensemble.ofSettings_eq_ok.mpr statistics,rs,
    Region.ofSettings_eq_ok.mpr ⟨h.regions_ne,regions⟩,?_⟩
  rw [if_pos (by omega)]

theorem kept_of_make (h : make id s = .ok job) : Kept s job := by
  have parts := made h
  have statistics := mapM_eq_ok.mp (Ensemble.ofSettings_eq_ok.mp parts.ensemble_ok)
  have regions := mapM_eq_ok.mp (Region.ofSettings_eq_ok.mp parts.regions_ok).2
  refine ⟨parts.grid_ok,statistics,?_,?_,?_⟩
  · exact regions.imp fun x r made => ⟨made,Region.ofSetting_texts made⟩
  · exact (Ensemble.spatialNames_length _).symm
  · exact (Ensemble.temporalNames_length _).symm

/-- The checks that passed before the one that failed are those that come before it in order. -/
theorem refused_of_make (few : s.regions.length ≤ maxRegions) (h : make id s = .error f) :
    Refused s f := by
  simp only [make,makeWith,bind_eq_error] at h
  obtain invalid | ⟨⟨⟩,valid,h⟩ := h
  · unfold Settings.validate at invalid
    split at invalid
    next => cases invalid
    next violated =>
      cases invalid
      exact .settings (by simpa using violated)
  obtain noGrid | ⟨g,grid,h⟩ := h
  · -- no settings that keep their rules are refused by the grid
    obtain ⟨g,grid⟩ := Settings.grid_of_valid Binary64.cos valid
    rw [grid] at noGrid
    cases noGrid
  obtain refused | ⟨e,ensemble,h⟩ := h
  · obtain ⟨⟨x,i⟩,first⟩ := mapM_eq_error.mp (Ensemble.ofSettings_eq_error.mp refused)
    exact .statistic x i f valid first (Statistic.ofSetting_fails f first.fails)
  have statistics : StatisticsMade s := mapM_exists.mp ⟨_,Ensemble.ofSettings_eq_ok.mp ensemble⟩
  obtain refused | ⟨rs,made,h⟩ := h
  · obtain ⟨none,rfl⟩ | refused := Region.ofSettings_eq_error.mp refused
    · exact .noRegions valid statistics none
    · obtain ⟨x,first⟩ := mapM_eq_error.mp refused
      obtain ⟨cause,rfl⟩ := Region.ofSetting_fails f first.fails
      exact .region g x cause valid statistics grid first
  · have length := (mapM_eq_ok.mp (Region.ofSettings_eq_ok.mp made).2).length_eq
    rw [if_pos (by omega)] at h
    cases h

theorem make_of_refused (h : Refused s f) (id : String) : make id s = .error f := by
  simp only [make,makeWith,bind_eq_error]
  cases h with
  | settings violated =>
    left
    rw [Settings.validate,if_neg (by simpa using violated)]
  | statistic x i f valid first why =>
    obtain ⟨g,grid⟩ := Settings.grid_of_valid Binary64.cos valid
    have refused := Ensemble.ofSettings_eq_error.mpr (mapM_eq_error.mpr ⟨_,first⟩)
    exact .inr ⟨(),valid,.inr ⟨g,grid,.inl refused⟩⟩
  | noRegions valid statistics none =>
    obtain ⟨g,grid⟩ := Settings.grid_of_valid Binary64.cos valid
    obtain ⟨xs,made⟩ := mapM_exists.mpr statistics
    have refused := Region.ofSettings_eq_error (g := g).mpr (.inl ⟨none,rfl⟩)
    exact .inr ⟨(),valid,.inr ⟨g,grid,.inr ⟨⟨xs⟩,Ensemble.ofSettings_eq_ok.mpr made,.inl refused⟩⟩⟩
  | region g x cause valid statistics grid first =>
    obtain ⟨xs,made⟩ := mapM_exists.mpr statistics
    have refused := Region.ofSettings_eq_error.mpr (.inr (mapM_eq_error.mpr ⟨_,first⟩))
    exact .inr ⟨(),valid,.inr ⟨g,grid,.inr ⟨⟨xs⟩,Ensemble.ofSettings_eq_ok.mpr made,.inl refused⟩⟩⟩

/-- Settings of no more regions than can be numbered make a job if every check accepts them, and
else the fault of the first check that does not. -/
theorem make_verdict (few : s.regions.length ≤ maxRegions) (id : String) :
    ((∃ job,make id s = .ok job) ↔ Acceptable s) ∧
      (∀ job,make id s = .ok job → Kept s job) ∧
      (∀ f,make id s = .error f ↔ Refused s f) ∧
      ∀ f,make id s = .error f → f.isConfiguration = true := by
  refine ⟨⟨?_,?_⟩,fun _ => kept_of_make,fun f => ⟨refused_of_make few,fun h => make_of_refused h id⟩,?_⟩
  · intro h
    obtain ⟨job,h⟩ := h
    exact acceptable_of_make h
  · intro h
    exact make_of_acceptable h few id
  · intro f h
    exact (refused_of_make few h).isConfiguration

/-- Neither the second statistic nor the region can be made. -/
def misnamed : Settings :=
  ⟨2,1,1,.little,[⟨"x",none⟩],[⟨"SUM","x",[]⟩,⟨"median","x",[]⟩],[⟨"cape","POINT(18 -34)"⟩],none⟩

theorem make_verdict_misnamed :
    (Settings.plain.regions.length ≤ maxRegions ∧ ∃ job,make "plain" Settings.plain = .ok job) ∧
      misnamed.regions.length ≤ maxRegions ∧
      make "misnamed" misnamed = .error (.unknownStatistic 1 "median") := by
  have total : Statistic.ofSetting [⟨"x",none⟩] 0 ⟨"SUM","x",[]⟩ = .ok (.total ⟨"x",0⟩) := by decide
  have plain : Acceptable Settings.plain := by
    refine ⟨by decide,List.forall_mem_singleton.mpr ⟨_,total⟩,by decide,?_⟩
    intro g grid x mem
    obtain rfl := List.mem_singleton.mp mem
    exact Region.ofSetting_ok (by decide +kernel) g
  have first : FirstFailing (fun p => Statistic.ofSetting misnamed.vars p.2 p.1)
      misnamed.statistics.zipIdx (⟨"median","x",[]⟩,1) (.unknownStatistic 1 "median") :=
    ⟨[(⟨"SUM","x",[]⟩,0)],[],rfl,List.forall_mem_singleton.mpr ⟨_,total⟩,by decide⟩
  have refused : Refused misnamed (.unknownStatistic 1 "median") :=
    .statistic _ 1 _ (by decide) first (.unknownType (by decide))
  exact ⟨⟨by decide,(make_verdict (by decide) "plain").1.mpr plain⟩,by decide,
    ((make_verdict (by decide) "misnamed").2.2.1 _).mpr refused⟩

end Job

end GlobeBins

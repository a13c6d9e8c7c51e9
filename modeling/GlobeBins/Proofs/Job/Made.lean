import GlobeBins.Job
import GlobeBins.Proofs.Checked
import GlobeBins.Proofs.Settings.Validity

namespace GlobeBins

namespace Settings

variable {s : Settings}

theorem grid_of_valid (cosine : Binary64 → Binary64) (h : s.validate = .ok ()) :
    ∃ g,Grid.makeWith cosine s.rows = .ok g := by
  obtain ⟨pos,even⟩ := (validate_eq_ok.mp h).rows
  rw [Grid.makeWith,dif_neg (by omega),if_neg (by omega)]
  exact ⟨_,rfl⟩

end Settings

theorem Ensemble.ofSettings_eq_ok {vs : List Variable} {settings : List StatisticSetting}
    {e : Ensemble} : ofSettings vs settings = .ok e ↔
      settings.zipIdx.mapM (fun p => Statistic.ofSetting vs p.2 p.1) = .ok e.statistics := by
  cases e
  simp [ofSettings,bind_eq_ok,pure,Except.pure]

theorem Region.ofSettings_eq_ok {g : Grid} {ss : List RegionSetting}
    {rs : List (Region Binary64)} :
    ofSettings g ss = .ok rs ↔ ss ≠ [] ∧ ss.mapM (ofSetting g) = .ok rs := by
  cases ss <;> simp [ofSettings]

namespace Job

variable {cosine : Binary64 → Binary64} {id : String} {s : Settings} {job : Job}

/-- How a job belongs to its settings. -/
structure Made (cosine : Binary64 → Binary64) (id : String) (s : Settings) (job : Job) : Prop where
  id_eq : job.id = id
  settings_eq : job.settings = s
  vars_eq : job.scheme.vars = s.vars
  grid_ok : Grid.makeWith cosine s.rows = .ok job.scheme.grid
  ensemble_ok : Ensemble.ofSettings s.vars s.statistics = .ok job.scheme.ensemble
  regions_ok : Region.ofSettings job.scheme.grid s.regions = .ok job.regions
  few : job.regions.length < 2^31
  reducers_pos : 0 < s.reducers
  regionPartitions_pos : 0 < s.regionPartitions

theorem made (h : Job.makeWith cosine id s = .ok job) : Made cosine id s job := by
  simp only [makeWith,bind_eq_ok] at h
  obtain ⟨⟨⟩,valid,grid,grid_ok,ensemble,ensemble_ok,regions,regions_ok,h⟩ := h
  split at h
  next few =>
    cases h
    have rules := Settings.validate_eq_ok.mp valid
    have low : regions.length < 2^31 := by
      unfold maxRegions at few
      omega
    exact ⟨rfl,rfl,rfl,grid_ok,ensemble_ok,regions_ok,low,rules.reducers,rules.regionPartitions⟩
  next => cases h

/-- Settings that bins and regions do not depend on can be changed. -/
theorem Made.again (h : Made cosine id s job) {s' : Settings} (valid : s'.validate = .ok ())
    (rows : s'.rows = s.rows) (vars : s'.vars = s.vars) (statistics : s'.statistics = s.statistics)
    (regions : s'.regions = s.regions) (id' : String) :
    makeWith cosine id' s' = .ok ⟨id',s',job.scheme,job.regions⟩ := by
  have few := h.few
  have scheme : job.scheme = ⟨job.scheme.grid,s'.vars,job.scheme.ensemble⟩ := by
    rw [vars,← h.vars_eq]
  simp only [makeWith,bind_eq_ok]
  refine ⟨(),valid,job.scheme.grid,?_,job.scheme.ensemble,?_,job.regions,?_,?_⟩
  · rw [rows,h.grid_ok]
  · rw [vars,statistics,h.ensemble_ok]
  · rw [regions,h.regions_ok]
  · rw [if_pos (by unfold maxRegions; omega),← scheme]

/-- There is a region, and each setting of one gives one. -/
theorem Made.regions_length (h : Made cosine id s job) :
    job.regions.length = s.regions.length ∧ 0 < s.regions.length := by
  obtain ⟨some,each⟩ := Region.ofSettings_eq_ok.mp h.regions_ok
  exact ⟨(mapM_eq_ok.mp each).length_eq.symm,List.length_pos_iff.mpr some⟩

end Job

/-- Whether a text is of an area with finite bounds. -/
def Region.usable (s : RegionSetting) : Bool :=
  match Wkt.parse? s.wkt with
  | some (.area ps) => (Polygon.box? ps).any fun e =>
    [e.low.x,e.low.y,e.high.x,e.high.y].all Coordinate.isFinite
  | _ => false

/-- Such a region can be made on every grid. -/
theorem Region.ofSetting_ok {s : RegionSetting} (h : usable s = true) (g : Grid) :
    ∃ r,ofSetting g s = .ok r := by
  unfold usable at h
  split at h
  next ps text =>
    rw [Option.any_eq_true] at h
    obtain ⟨e,box,finite⟩ := h
    simp only [ofSetting,text,ofPolygons,box,finite]
    exact ⟨_,rfl⟩
  next => cases h

theorem Region.ofSettings_ok {ss : List RegionSetting} (some : ss ≠ [])
    (usable : ∀ s ∈ ss,usable s = true) (g : Grid) : ∃ rs,ofSettings g ss = .ok rs ∧ rs.length = ss.length := by
  obtain ⟨rs,each⟩ : ∃ rs,ss.mapM (ofSetting g) = .ok rs :=
    mapM_exists.mpr fun s mem => ofSetting_ok (usable s mem) g
  exact ⟨rs,ofSettings_eq_ok.mpr ⟨some,each⟩,(mapM_eq_ok.mp each).length_eq.symm⟩

/-- What it takes to make a job. -/
theorem Job.make_ok {id : String} {s : Settings} {e : Ensemble} (valid : s.validate = .ok ())
    (ensemble : Ensemble.ofSettings s.vars s.statistics = .ok e) (some : s.regions ≠ [])
    (usable : ∀ r ∈ s.regions,Region.usable r = true)
    (few : s.regions.length ≤ Job.maxRegions) (cosine : Binary64 → Binary64) :
    ∃ job,Job.makeWith cosine id s = .ok job := by
  obtain ⟨g,grid⟩ := Settings.grid_of_valid cosine valid
  obtain ⟨rs,regions,length⟩ := Region.ofSettings_ok some usable g
  refine ⟨⟨id,s,⟨g,s.vars,e⟩,rs⟩,?_⟩
  simp only [makeWith,bind_eq_ok]
  refine ⟨(),valid,g,grid,e,ensemble,rs,regions,?_⟩
  rw [if_pos (by omega)]

/-- Sums of one variable in one region. -/
def Settings.plain : Settings :=
  ⟨2,1,1,.little,[⟨"x",none⟩],[⟨"SUM","x",[]⟩],
    [⟨"tropics","POLYGON((-170 -23,170 -23,170 23,-170 23,-170 -23))"⟩],none⟩

theorem Settings.plain_made : ∃ job,Job.make "plain" plain = .ok job :=
  Job.make_ok (by decide) (e := ⟨[.total ⟨"x",0⟩]⟩) (by decide) (by decide) (by decide +kernel)
    (by decide) Binary64.cos

theorem Settings.plain_ensemble {cosine : Binary64 → Binary64} {id : String} {job : Job}
    (h : Job.Made cosine id plain job) :
    job.scheme.ensemble = ⟨[.total ⟨"x",0⟩]⟩ :=
  Except.ok.inj (h.ensemble_ok.symm.trans (by decide))

/-- The cosine in the middle of each of four rows. -/
def Grid.fourRows (x : Binary64) : Binary64 :=
  if x.abs < 1 then ⟨0x3fed906bcf328d46⟩ else ⟨0x3fd87de2a6aea964⟩

/-- Sums and extremes in regions that overlap; no cell has its centre near the last one. -/
def Settings.survey : Settings :=
  ⟨4,3,2,.big,[⟨"depth",some (.atLeast 0)⟩,⟨"warmth",none⟩],
    [⟨"SUM","depth",[]⟩,⟨"MIN_MAX","warmth",[]⟩],
    [⟨"west","POLYGON((-180 -40,0 -40,0 40,-180 40,-180 -40))"⟩,
      ⟨"north","POLYGON((-180 1,180 1,180 80,-180 80,-180 1))"⟩,
      ⟨"tropics","POLYGON((-20 -40,20 -40,20 40,-20 40,-20 -40))"⟩,
      ⟨"pole","POLYGON((-10 -89,10 -89,10 -80,-10 -80,-10 -89))"⟩],
    some ⟨"2020-01-01","2020-01-31"⟩⟩

/-- The partitions of the survey. One observation has too few samples and one a missing one. -/
def Settings.surveyed (name : String) : List Observation :=
  if name = "a" then [⟨0,20,5,[3,10]⟩,⟨1,20,-5,[1,12]⟩,⟨2,20,-100,[4]⟩,⟨3,-20,0,[2,8]⟩]
  else if name = "c" then [⟨4,20,0,[5,11]⟩,⟨5,20,100,[6,9]⟩,⟨6,70,0,[.ofInt (-1),10]⟩]
  else []

def Settings.surveys : List (List Observation) := ["a","b","c"].map surveyed

end GlobeBins

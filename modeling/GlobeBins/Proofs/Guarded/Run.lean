import GlobeBins.Proofs.Grid.Vast
import GlobeBins.Proofs.Guarded.Passes
import GlobeBins.Proofs.Guarded.Products
import GlobeBins.Proofs.Job.Conservation
import GlobeBins.Proofs.Job.Counters

namespace GlobeBins

namespace Guarded

/-- A partition on its way through a spill. -/
def recovered (job : Job) (id : Nat) (os : List Observation) :
    Except Stop (SourceRecords (SpatialBin Binary32)) := do
  let (bins,_) ← binPartition job.scheme os
  let content ← (job.spatialCodec.encodeSpatial bins).mapError .fault
  let bins ← (job.spatialCodec.decodeSpatial content).mapError .fault
  return ⟨id,bins⟩

/-- All calls of a job over so many partitions of observations. -/
def calls (job : Job) (n : Nat) (observations : Nat → List Observation) :
    Except Stop (List ProductCall) := do
  let sources ← (List.range n).mapM fun i => recovered job i (observations i)
  let temporal ← temporalPass job sources
  let partitions ← regionPass job temporal
  productCalls job partitions

variable {job : Job}

theorem recovered_eq (resolved : job.scheme.Resolved)
    (spatial : job.scheme.ensemble.spatialCount < 2^31) (id : Nat) {os : List Observation}
    (few : (os.filter job.scheme.admits).length < 2^31) :
    recovered job id os = .ok (job.recovered id os) := by
  have encoded := Job.writable_iff.mp (Job.writable_of_few spatial os)
  simp only [recovered,binPartition_eq resolved few,ok_bind,encoded,Except.mapError,
    Codec.decodeSpatial_encodeSpatial encoded]
  rfl

section

variable (resolved : job.scheme.Resolved) (routed : Routed job) (regions : job.regions.length < 2^31)
  (spatial : job.scheme.ensemble.spatialCount < 2^31) (reducers : 0 < job.settings.reducers)
  (layout : job.settings.reducers*job.scheme.grid.rows < 2^64) {n : Nat}
  {observations : Nat → List Observation}
  (few : job.scheme.accepted ((List.range n).map observations) < 2^31)

include resolved routed spatial reducers layout few

/-- What is left to do after the first pass. -/
theorem calls_eq_regionPass : calls job n observations =
    regionPass job (job.temporal n observations) >>= productCalls job := by
  have sources : (List.range n).mapM (fun i => recovered job i (observations i)) =
      .ok (job.sources n observations) := by
    refine mapM_ok fun i hi => recovered_eq resolved spatial i (Nat.lt_of_le_of_lt ?_ few)
    exact List.single_le_sum (fun _ _ => Nat.zero_le _) _
      (List.mem_map.mpr ⟨_,List.mem_map.mpr ⟨i,hi,rfl⟩,rfl⟩)
  rw [calls,sources,ok_bind,temporalPass_eq routed reducers layout few,ok_bind]

include regions

theorem calls_eq (fits : job.scheme.grid.bins < 2^63) (small : job.settings.regionPartitions < 2^31)
    {partitions : List (List (RegionBin Binary32))}
    (copied : job.regionPass (job.temporal n observations) = .ok partitions) :
    calls job n observations = .ok (job.productCalls partitions) := by
  have perm := Job.regionPass_perm regions copied
  have numbered : ∀ b ∈ partitions.flatten,
      ∃ r < job.regions.length,b.key.region = Int32.ofNat r :=
    fun b hb => Job.copies_region (perm.mem_iff.mp hb)
  have wide : ∀ b ∈ partitions.flatten,job.Wide b :=
    fun b hb => Job.copies_wide _ b (perm.mem_iff.mp hb)
  rw [calls_eq_regionPass resolved routed spatial reducers layout few,
    regionPass_eq fits regions small copied,ok_bind]
  exact productCalls_eq regions numbered wide

/-- Where the number of bins has become negative, a run that has accepted an observation stops as soon
as it asks for the centre of a bin. -/
theorem calls_stop (low : 2^63 < job.scheme.grid.bins) (high : job.scheme.grid.bins < 2^64)
    (some : 0 < job.scheme.accepted ((List.range n).map observations)) :
    calls job n observations = .error .bounds := by
  have merged : (job.temporal n observations).flatten ≠ [] := by
    intro none
    have cells := (job.temporal_perm n observations).length_eq
    rw [none,List.length_map] at cells
    rw [← Scheme.sum_acceptedIn,List.length_eq_zero_iff.mp cells.symm] at some
    exact absurd some (Nat.lt_irrefl 0)
  rw [calls_eq_regionPass resolved routed spatial reducers layout few,
    regionPass_stops low high regions merged]
  rfl

end

end Guarded

theorem Job.Made.resolved {cosine : Binary64 → Binary64} {id : String} {s : Settings} {job : Job}
    (h : Made cosine id s job) : job.scheme.Resolved := by
  intro statistic hs i hi
  rw [h.vars_eq]
  exact Ensemble.ofSettings_reads h.ensemble_ok statistic hs i hi

/-- Whatever the observations, a run whose surroundings report no error and give back what was written
ends well, on a grid whose bins words can number. Step by step it never indexes beyond a list,
overflows, divides by zero or meets a codec fault on the way to the calls that it makes, words hold the
bin of every observation, and its counters stay words unless there are too many to be counted. -/
theorem run_never_stops {cosine : Binary64 → Binary64} {id : String} {settings : Settings} {job : Job}
    (made : Job.makeWith cosine id settings = .ok job) (fits : job.scheme.grid.bins < 2^63)
    (spatial : job.scheme.ensemble.spatialCount < 2^31)
    (temporal : job.scheme.ensemble.temporalCount < 2^31)
    (small : settings.regionPartitions < 2^31) (layout : settings.reducers*settings.rows < 2^64)
    {σ : Type} (s : Surroundings (StateM σ)) {names : List String} {order : List (Nat × String)}
    (perm : order.Perm (Job.numbered names)) {observations : Nat → List Observation}
    (few : job.scheme.accepted ((List.range names.length).map observations) < 2^31) (w : σ)
    (calm : Job.Undisturbed order observations (job.log s order w))
    (accepts : ∀ c ∈ calls (job.log s order w),c.2 = .ok ()) :
    (∃ summary,(job.outcome s order w).result = .ok summary ∧ summary.Bounded
      ((List.range names.length).map fun i => (observations i).length).sum) ∧
    (∀ i < names.length,∀ o ∈ observations i,Guarded.Held job.scheme.grid o.lat o.lon) ∧
    Guarded.calls job names.length observations =
      .ok ((calls (job.log s order w)).map Prod.fst) := by
  have made := Job.made made
  have reducers := made.reducers_pos
  rw [← Grid.makeWith_rows made.grid_ok] at layout
  rw [← made.settings_eq] at small layout reducers
  obtain ⟨partitions,copied,same,result⟩ :=
    (job.ran s order w).succeeds perm calm accepts spatial temporal
  have sent : (calls (job.log s order w)).map Prod.fst = job.productCalls partitions := by
    rw [same,List.map_map]
    exact List.map_id _
  refine ⟨⟨_,result,Job.summary_bounded made.few _ few copied⟩,
    fun _ _ o _ => Guarded.held fits o.lat o.lon,?_⟩
  rw [sent]
  exact Guarded.calls_eq made.resolved (Guarded.routed fits) made.few spatial reducers layout few fits
    small copied

/-- Six bins are written of seven observations, two of which are refused. -/
theorem run_never_stops_survey :
    ∃ job summary sent,Job.makeWith Grid.fourRows "survey" .survey = .ok job ∧
    (job.outcome (.quiet Settings.surveyed) Job.surveyOrder ()).result = .ok summary ∧
    (summary.observations,summary.skipped,summary.regionBins) = (7,2,6) ∧
    Guarded.calls job 3 Job.surveyPart = .ok sent ∧
    (sent.filter ProductCall.writes).length = 6 := by
  obtain ⟨job,survey⟩ := Job.surveyed
  obtain ⟨⟨summary,result,_⟩,_,guarded⟩ := run_never_stops survey.made
    (by rw [survey.bins]; decide) survey.narrow.1 survey.narrow.2 (by decide) (by decide)
    (.quiet Settings.surveyed) Job.surveyOrder_perm (Job.survey_accepted _) ()
    (Job.survey_undisturbed job) (quiet_accepts _ job _ ())
  obtain ⟨partitions,copied,same,result'⟩ := survey.succeeds
  cases result.symm.trans result'
  have tally := Job.summary_tally (Job.made survey.made).few none (n := 3)
    (Job.survey_accepted _) copied
  have counts := survey.counts tally
  simp only [Prod.mk.injEq] at counts
  obtain ⟨⟨_,observations,skipped⟩,_,_,regionBins⟩ := counts
  refine ⟨job,_,_,survey.made,result,?_,guarded,?_⟩
  · rw [observations,skipped,regionBins]
  · rw [← regionBins,tally.written,same,List.map_map]
    exact congrArg (fun cs => (List.filter ProductCall.writes cs).length) (List.map_id _)

/-- Sums of one variable over so many rows that words cannot number all bins. -/
def Settings.vast : Settings := {plain with rows := Grid.vastRows}

/-- With the grid of any cosine, one observation is enough for a job that meets all other conditions to
stop at the centre of its bin. -/
theorem vast_run_stops : (∃ cosine,Grid.Arched cosine) ∧ ∀ cosine,Grid.Arched cosine →
    ∃ job,Job.makeWith cosine "vast" .vast = .ok job ∧ job.scheme.ensemble.spatialCount < 2^31 ∧
      job.scheme.ensemble.temporalCount < 2^31 ∧ Settings.vast.regionPartitions < 2^31 ∧
      Settings.vast.reducers*Settings.vast.rows < 2^64 ∧
      job.scheme.accepted [[⟨0,0,0,[1]⟩]] = 1 ∧
      Guarded.calls job 1 (fun _ => [⟨0,0,0,[1]⟩]) = .error .bounds := by
  constructor
  · exact ⟨_,Grid.arched_level⟩
  · intro cosine arched
    obtain ⟨job,made⟩ : ∃ job,Job.makeWith cosine "vast" .vast = .ok job :=
      Job.make_ok (by decide) (e := ⟨[.total ⟨"x",0⟩]⟩) (by decide) (by decide) (by decide +kernel)
        (by decide) cosine
    have parts := Job.made made
    have ensemble : job.scheme.ensemble = ⟨[.total ⟨"x",0⟩]⟩ :=
      Except.ok.inj (parts.ensemble_ok.symm.trans (by decide))
    have settings : job.settings = .vast := parts.settings_eq
    have grid : Grid.makeWith cosine Grid.vastRows = .ok job.scheme.grid := parts.grid_ok
    have rows : job.scheme.grid.rows = Grid.vastRows := Grid.makeWith_rows grid
    have admitted : job.scheme.admits ⟨0,0,0,[1]⟩ = true := by
      rw [Scheme.admits,parts.vars_eq,ensemble]
      decide +kernel
    have accepted : job.scheme.accepted [[⟨0,0,0,[1]⟩]] = 1 := by
      simp [Scheme.accepted,admitted]
    have spatial : job.scheme.ensemble.spatialCount < 2^31 := by
      rw [ensemble]
      decide
    have temporal : job.scheme.ensemble.temporalCount < 2^31 := by
      rw [ensemble]
      decide
    obtain ⟨low,high⟩ := Grid.vast_bins arched grid
    have inputs : (List.range 1).map (fun _ => [(⟨0,0,0,[1]⟩ : Observation)]) = [[⟨0,0,0,[1]⟩]] := rfl
    refine ⟨job,made,spatial,temporal,by decide,by decide,accepted,?_⟩
    refine Guarded.calls_stop parts.resolved (Guarded.routed_single ?_) parts.few spatial
      (settings ▸ parts.reducers_pos) ?_ ?_ low high ?_
    · rw [settings]
      rfl
    · rw [settings,rows]
      decide
    · rw [inputs,accepted]
      decide
    · rw [inputs,accepted]
      decide

end GlobeBins

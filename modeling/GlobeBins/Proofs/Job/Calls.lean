import GlobeBins.Proofs.Grid.Rows
import GlobeBins.Proofs.Job.Blocks
import GlobeBins.Proofs.Job.Cells
import GlobeBins.Proofs.Job.Construction

namespace GlobeBins

namespace Job

variable {job : Job}

/-- Spatial bins that a run has read back. -/
def ReadBack (job : Job) (log : List Step) (sources : List (SourceRecords (SpatialBin Binary32))) :
    Prop :=
  ∃ spilled steps,job.Recovered spilled (.ok sources) steps ∧ steps <:+: log

/-- Only the products call the sink. -/
theorem Ran.reached {directory : Option String} {order : List (Nat × String)} {outcome : Outcome}
    {log : List Step} (ran : job.Ran directory order outcome log) (reached : calls log ≠ []) :
    ∃ sources partitions written made summary,job.ReadBack log sources ∧
      job.regionPass (job.temporalPass sources) = .ok partitions ∧
      ProductCall.Performed (job.productCalls partitions) written made ∧
      calls log = calls made ∧ outcome.result = written.map (fun _ => summary) ∧
      summary.regions = job.regions.length := by
  cases ran with
  | failed binned _ removals =>
    rw [calls_append,binned_calls binned,(removals_silent removals).2] at reached
    exact absurd rfl reached
  | @passed parts _ _ binned _ passed =>
    rw [calls_append,binned_calls binned,List.nil_append] at reached ⊢
    cases passed with
    | unrecovered back | uncopied back => exact absurd back.silent reached
    | @formatted sources partitions written steps made back copied performed =>
      refine ⟨sources,partitions,written,made,_,⟨_,steps,back,?_⟩,copied,performed,?_,rfl,rfl⟩
      · rw [← List.append_assoc]
        exact List.infix_append _ _ _
      · rw [calls_append,back.silent,List.nil_append]

theorem Protocol.flatMap_bins {full empty : List Block} (h : job.Protocol full empty) :
    (full++empty).flatMap Block.bins = full.flatMap Block.bins := by
  rw [List.flatMap_append,List.flatMap_eq_nil_iff.mpr h.empty_bins,List.append_nil]

theorem Protocol.plan_ne_nil {full empty : List Block} (h : job.Protocol full empty)
    (some : 0 < job.regions.length) : (full++empty).flatMap job.blockCalls ≠ [] := by
  intro none
  have blocks : full++empty = [] := by
    rw [List.eq_nil_iff_forall_not_mem]
    intro b hb
    have calls := List.flatMap_eq_nil_iff.mp none b hb
    simp [blockCalls] at calls
  have length := h.once.length_eq
  rw [blocks] at length
  simp at length
  omega

/-- The header that settings give the product of a region. -/
structure Heads (id : String) (settings : Settings) (r : Int32) (m : Metadata) : Prop where
  job : m.job = id
  region : m.region = r
  setting : settings.regions[r.toInt.toNat]? = some ⟨m.name,m.wkt⟩
  period : m.period = settings.period
  rows : m.rows = settings.rows
  features : ∃ e,Ensemble.ofSettings settings.vars settings.statistics = .ok e ∧
    m.features = e.statistics.flatMap Statistic.outputNames

section

variable {cosine : Binary64 → Binary64} {id : String} {settings : Settings}

theorem Made.metadata (made : Made cosine id settings job) {r : Nat}
    (inside : r < job.regions.length) :
    Heads id settings (Int32.ofNat r) (job.metadata (Int32.ofNat r)) := by
  have index : (Int32.ofNat r).toInt.toNat = r := by
    rw [Int32.toInt_ofNat_of_lt (Nat.lt_trans inside made.few),Int.toNat_natCast]
  obtain ⟨_,each⟩ := Region.ofSettings_eq_ok.mp made.regions_ok
  have pairs := mapM_eq_ok.mp each
  have there : r < settings.regions.length := by rwa [pairs.length_eq]
  obtain ⟨name,wkt⟩ := Region.ofSetting_texts (pairs.get there inside)
  have region : job.regions[r]? = some job.regions[r] := List.getElem?_eq_getElem inside
  constructor
  case job => exact made.id_eq
  case region => rfl
  case setting =>
    simp only [Job.metadata,index,region]
    rw [List.getElem?_eq_getElem there]
    exact congrArg some (congrArg₂ RegionSetting.mk name.symm wkt.symm)
  case period => exact congrArg Settings.period made.settings_eq
  case rows => exact Grid.makeWith_rows made.grid_ok
  case features => exact ⟨_,made.ensemble_ok,rfl⟩

theorem Protocol.heads {full empty : List Block} (h : job.Protocol full empty)
    (made : Made cosine id settings job) :
    ∀ b ∈ full++empty,Heads id settings b.region (job.metadata b.region) := by
  intro b hb
  obtain ⟨r,inside,region⟩ :=
    List.mem_map.mp (h.once.mem_iff.mp (List.mem_map.mpr ⟨b,hb,rfl⟩))
  rw [← region]
  exact made.metadata (List.mem_range.mp inside)

end

/-- There is a region, so there are calls to make. -/
theorem productCalls_ne_nil {cosine : Binary64 → Binary64} {id : String} {settings : Settings}
    (made : Made cosine id settings job)
    (small : settings.regionPartitions < 2^31) {sources : List (SourceRecords (SpatialBin Binary32))}
    {partitions : List (List (RegionBin Binary32))}
    (copied : job.regionPass (job.temporalPass sources) = .ok partitions) :
    job.productCalls partitions ≠ [] := by
  have positive := made.regionPartitions_pos
  rw [← made.settings_eq] at small positive
  obtain ⟨full,empty,protocol,blocks,_⟩ := productCalls_blocks made.few positive small
    (job.temporalPass_distinct sources) copied (copies_wide sources)
  rw [blocks]
  exact protocol.plan_ne_nil (made.regions_length.1 ▸ made.regions_length.2)

theorem writable_of_few (few : job.scheme.ensemble.spatialCount < 2^31) (os : List Observation) :
    job.Writable os := by
  intro b hb
  obtain ⟨i,_,rfl⟩ := SpatialPass.mem_run.mp hb
  exact ⟨Scheme.cell_length os i,few⟩

/-- A run that nothing disturbs makes all calls, unless features are too many for the codecs. -/
theorem Ran.succeeds {directory : Option String} {names : List String}
    {order : List (Nat × String)} {observations : Nat → List Observation} {outcome : Outcome}
    {log : List Step} (ran : job.Ran directory order outcome log)
    (perm : order.Perm (numbered names)) (calm : Undisturbed order observations log)
    (accepts : ∀ c ∈ calls log,c.2 = .ok ())
    (spatial : job.scheme.ensemble.spatialCount < 2^31)
    (temporal : job.scheme.ensemble.temporalCount < 2^31) :
    ∃ partitions,job.regionPass (job.temporal names.length observations) = .ok partitions ∧
      calls log = (job.productCalls partitions).map (fun c => (c,.ok ())) ∧
      outcome.result = .ok (job.summary (job.spills names.length observations directory)
        (job.temporal names.length observations) partitions) := by
  rcases ran.undisturbed perm calm with ⟨_,_,tooMany | ⟨f,failed⟩⟩ | ended
  · exact absurd (fun i _ => writable_of_few spatial _) tooMany
  · obtain ⟨partitions,copied⟩ : ∃ partitions,
        job.regionPass (job.temporal names.length observations) = .ok partitions :=
      regionPass_ok fun x hx => ⟨copies_wide _ x hx,temporal⟩
    rw [copied] at failed
    cases failed
  · obtain ⟨partitions,written,made,copied,performed,same,result⟩ := ended
    rw [same] at accepts
    cases performed.accepted accepts
    exact ⟨partitions,copied,same.trans (performed.whole rfl),result⟩

end Job

/-- A run that reaches its products makes the calls of its blocks, each begun with the header of its
region, and ends well exactly if all of them do. Where one fails it is the last one. -/
theorem product_protocol {cosine : Binary64 → Binary64} {id : String} {settings : Settings}
    {job : Job} (made : Job.makeWith cosine id settings = .ok job)
    (small : settings.regionPartitions < 2^31) {σ : Type} (s : Surroundings (StateM σ))
    (order : List (Nat × String)) (w : σ) (reached : calls (job.log s order w) ≠ []) :
    ∃ full empty,job.Protocol full empty ∧
      (∀ b ∈ full++empty,Job.Heads id settings b.region (job.metadata b.region)) ∧
      (∃ sources,job.ReadBack (job.log s order w) sources ∧ (full.flatMap Block.bins).Perm
        ((job.copies (job.temporalPass sources)).map fun x => (x,job.output x))) ∧
      let plan := (full++empty).flatMap job.blockCalls
      ((∀ c ∈ calls (job.log s order w),c.2 = .ok ()) →
        calls (job.log s order w) = plan.map (fun c => (c,.ok ())) ∧
        ∃ summary,(job.outcome s order w).result = .ok summary ∧
          summary.regions = settings.regions.length) ∧
      ∀ k c f,(calls (job.log s order w))[k]? = some (c,.error f) →
        (calls (job.log s order w)).map Prod.fst = plan.take (k+1) ∧
        (job.outcome s order w).result = .error f := by
  have made := Job.made made
  obtain ⟨sources,partitions,written,steps,summary,back,copied,performed,same,result,regions⟩ :=
    (job.ran s order w).reached reached
  have positive := made.regionPartitions_pos
  rw [← made.settings_eq] at small positive
  obtain ⟨full,empty,protocol,blocks,bins⟩ := Job.productCalls_blocks made.few positive small
    (job.temporalPass_distinct sources) copied (Job.copies_wide sources)
  refine ⟨full,empty,protocol,protocol.heads made,⟨sources,back,bins⟩,?_⟩
  rw [blocks] at performed
  rw [same,result]
  constructor
  · intro all
    cases performed.accepted all
    exact ⟨performed.whole rfl,summary,rfl,regions.trans made.regions_length.1⟩
  · intro k c f failed
    obtain ⟨eq,rfl⟩ := performed.cut failed
    exact ⟨eq,rfl⟩

namespace Job

theorem survey_undisturbed (job : Job) : Undisturbed surveyOrder surveyPart
    (job.log (.quiet Settings.surveyed) surveyOrder ()) :=
  quiet_undisturbed Settings.surveyed job surveyOrder_perm ()

/-- A run over the survey makes all of its calls. -/
theorem Surveyed.succeeds {job : Job} (h : Surveyed job) :
    let s := Surroundings.quiet Settings.surveyed
    ∃ partitions,job.regionPass (job.temporal 3 surveyPart) = .ok partitions ∧
      calls (job.log s surveyOrder ()) = (job.productCalls partitions).map (fun c => (c,.ok ())) ∧
      (job.outcome s surveyOrder ()).result = .ok (job.summary (job.spills 3 surveyPart none)
        (job.temporal 3 surveyPart) partitions) := by
  intro s
  have ran : job.Ran none surveyOrder (job.outcome s surveyOrder ()) (job.log s surveyOrder ()) :=
    job.ran s surveyOrder ()
  obtain ⟨partitions,copied,same,result⟩ := ran.succeeds surveyOrder_perm (survey_undisturbed job)
    (quiet_accepts _ job _ ()) h.narrow.1 h.narrow.2
  exact ⟨partitions,copied,same,result⟩

/-- The regions of the survey that have bins, as they are begun, and the cells of each. -/
def surveyCells : List (Nat × List Int64) := [(0,[6,13]),(2,[6,13]),(1,[6,8])]

/-- The blocks of the survey that have bins. -/
def surveyFull (job : Job) : List Block :=
  surveyCells.map fun p => ⟨Int32.ofNat p.1,p.2.map fun i =>
    let b := RegionBin.of (Int32.ofNat p.1) (job.scheme.merged Settings.surveys i)
    (b,job.output b)⟩

def surveyEmpty : List Block := [⟨3,[]⟩]

theorem Surveyed.protocol {job : Job} (h : Surveyed job) :
    job.Protocol job.surveyFull surveyEmpty := by
  have made := Job.made h.made
  have settings : job.settings = Settings.survey := made.settings_eq
  have regions : job.regions.length = 4 := made.regions_length.1
  constructor
  case once =>
    rw [regions]
    show [0,2,1,3].Perm ((List.range 4).map Int32.ofNat)
    decide
  case full_bins => simp [surveyFull,surveyCells]
  case empty_bins => simp [surveyEmpty]
  case full_order =>
    have order : surveyCells.Pairwise fun p q =>
        let partition (r : Nat) : Nat := (Int32.ofNat r).toInt.toNat%2
        partition p.1 < partition q.1 ∨
          partition p.1 = partition q.1 ∧ Int32.ofNat p.1 < Int32.ofNat q.1 := by decide
    refine List.pairwise_map.mpr (order.imp ?_)
    intro p q before
    rw [RegionBefore,settings]
    exact before
  case empty_order => exact List.pairwise_singleton _ _
  case own =>
    intro b hb x hx
    obtain ⟨p,_,rfl⟩ := List.mem_map.mp hb
    obtain ⟨i,_,rfl⟩ := List.mem_map.mp hx
    rfl
  case ascending =>
    intro b hb
    obtain ⟨p,hp,rfl⟩ := List.mem_map.mp hb
    have ascending : ∀ p ∈ surveyCells,p.2.Pairwise fun i j => i < j := by decide
    refine List.pairwise_map.mpr ((ascending p hp).imp ?_)
    intro i j lt
    show (job.scheme.merged Settings.surveys i).index < (job.scheme.merged Settings.surveys j).index
    rwa [Scheme.merged_index,Scheme.merged_index]

/-- All blocks that the survey can be written in are these. -/
theorem Surveyed.blocks {job : Job} (h : Surveyed job) {full empty : List Block}
    (protocol : job.Protocol full empty) (bins : (full.flatMap Block.bins).Perm
      ((job.copies (job.temporal 3 surveyPart)).map fun x => (x,job.output x))) :
    full = job.surveyFull ∧ empty = surveyEmpty := by
  refine protocol.unique (Job.made h.made).few h.protocol (bins.trans ?_)
  refine (h.copies_perm.map _).trans ?_
  rw [List.map_map]
  have order : [(0,13),(2,13),(0,6),(1,6),(2,6),(1,8)].Perm
      (surveyCells.flatMap fun p => p.2.map fun i => (p.1,i)) := by decide
  refine (order.map _).trans (.of_eq ?_)
  simp only [surveyFull,List.map_flatMap,List.flatMap_map,List.map_map]
  rfl

end Job

namespace ProductCall

/-- The bins that are written. -/
def written : List ProductCall → List (RegionBin Binary32 × List Binary32)
  | [] => []
  | .start _::cs | .finish::cs => written cs
  | .bin b out::cs => (b,out)::written cs

theorem written_bins (bins : List (RegionBin Binary32 × List Binary32)) (cs : List ProductCall) :
    written (bins.map (fun x => .bin x.1 x.2)++cs) = bins++written cs := by
  induction bins with
  | nil => rfl
  | cons x xs ih => exact congrArg (x::·) ih

theorem written_blocks (job : Job) (blocks : List Block) :
    written (blocks.flatMap job.blockCalls) = blocks.flatMap Block.bins := by
  induction blocks with
  | nil => rfl
  | cons b bs ih =>
    rw [List.flatMap_cons,List.flatMap_cons,Job.blockCalls,List.cons_append,List.append_assoc,
      written,written_bins,List.singleton_append,written,ih]

end ProductCall

/-- Regions 0 and 2 belong to the first of two partitions, and region 3 has no bin. -/
theorem product_protocol_survey :
    ∃ job,Job.makeWith Grid.fourRows "survey" .survey = .ok job ∧
    let log := job.log (.quiet Settings.surveyed) Job.surveyOrder ()
    ∃ full empty,job.Protocol full empty ∧
      (full.map fun b => (b.region,b.bins.map fun x => x.1.bin.index)) =
        [(0,[6,13]),(2,[6,13]),(1,[6,8])] ∧
      empty.map Block.region = [3] ∧
      (∀ b ∈ full++empty,Job.Heads "survey" .survey b.region (job.metadata b.region)) ∧
      calls log = ((full++empty).flatMap job.blockCalls).map (fun c => (c,.ok ())) := by
  obtain ⟨job,survey⟩ := Job.surveyed
  obtain ⟨partitions,copied,same,_⟩ := survey.succeeds
  have made := Job.made survey.made
  have few : Settings.survey.regionPartitions < 2^31 := by decide
  have reached : calls (job.log (.quiet Settings.surveyed) Job.surveyOrder ()) ≠ [] := by
    rw [same]
    exact fun none => Job.productCalls_ne_nil made few copied (List.map_eq_nil_iff.mp none)
  obtain ⟨full,empty,protocol,heads,_,whole,_⟩ :=
    product_protocol survey.made few (.quiet Settings.surveyed) Job.surveyOrder () reached
  obtain ⟨all,_⟩ := whole (quiet_accepts _ job _ ())
  have settings : job.settings = .survey := made.settings_eq
  obtain ⟨full',empty',protocol',blocks,bins⟩ := Job.productCalls_blocks made.few
    (settings ▸ by decide) (settings ▸ few) (job.temporalPass_distinct _) copied
    (Job.copies_wide _)
  have plans : (full++empty).flatMap job.blockCalls = (full'++empty').flatMap job.blockCalls := by
    refine List.map_injective_iff.mpr (fun c d eq => congrArg Prod.fst eq) (all.symm.trans ?_)
    rw [same,blocks]
  have written := congrArg ProductCall.written plans
  rw [ProductCall.written_blocks,ProductCall.written_blocks,protocol.flatMap_bins,
    protocol'.flatMap_bins] at written
  rw [← written] at bins
  obtain ⟨rfl,rfl⟩ := survey.blocks protocol bins
  refine ⟨job,survey.made,_,_,protocol,?_,rfl,heads,all⟩
  simp [Job.surveyFull,Job.surveyCells,Scheme.merged_index,RegionBin.of]

end GlobeBins

import GlobeBins.Proofs.Job.Calls
import GlobeBins.Proofs.Job.Cells

namespace GlobeBins

/-- Related pairs of two lists are counted from either side. -/
theorem sum_length_filter_comm {α β : Type} (p : α → β → Bool) (as : List α) (bs : List β) :
    (as.map fun a => (bs.filter fun b => p a b).length).sum =
      (bs.map fun b => (as.filter fun a => p a b).length).sum := by
  induction as with
  | nil => simp
  | cons a as ih =>
    have first : (bs.map fun b => ((a::as).filter fun a => p a b).length).sum =
        (bs.filter fun b => p a b).length+(bs.map fun b => (as.filter fun a => p a b).length).sum := by
      clear ih
      induction bs with
      | nil => rfl
      | cons b bs ih =>
        rw [List.map_cons,List.sum_cons,ih]
        by_cases related : p a b
        · simp [related]
          omega
        · simp [related]
          omega
    rw [List.map_cons,List.sum_cons,ih,first]

namespace Scheme

variable {c : Scheme} {partitions : List (List Observation)} {i : Int64}

theorem refused_add_accepted :
    (partitions.map fun os => (os.filter fun o => !c.admits o).length).sum+c.accepted partitions =
      (partitions.map List.length).sum := by
  rw [accepted,← List.sum_map_add]
  refine congrArg List.sum (List.map_congr_left fun os _ => ?_)
  rw [Nat.add_comm]
  exact (List.length_eq_length_filter_add _).symm

/-- Each accepted observation is counted in the bin of its cell. -/
theorem sum_acceptedIn :
    ((c.cells partitions.flatten).map fun i => c.acceptedIn partitions i).sum =
      c.accepted partitions := by
  simp only [← inCell_flatten_length]
  rw [sum_cells,List.filter_flatten,List.length_flatten,List.map_map]
  rfl

theorem sum_merged_observations (few : c.accepted partitions < 2^31) :
    (((c.cells partitions.flatten).map (c.merged partitions)).map fun b =>
      b.observations.toInt).sum = c.accepted partitions := by
  rw [← sum_acceptedIn,Nat.cast_list_sum,List.map_map,List.map_map]
  refine congrArg List.sum (List.map_congr_left fun i _ => ?_)
  rw [Function.comp_apply,merged_observations,
    Int32.toInt_ofNat_of_lt (Nat.lt_of_le_of_lt acceptedIn_le few)]
  rfl

/-- Each cell of a partition is counted in the bin of that cell. -/
theorem sum_touching :
    ((c.cells partitions.flatten).map fun i => (c.touching partitions i).length).sum =
      (partitions.map fun os => (c.cells os).length).sum := by
  simp only [touching]
  rw [sum_length_filter_comm]
  refine congrArg List.sum (List.map_congr_left fun os hos => List.Perm.length_eq ?_)
  rw [List.perm_ext_iff_of_nodup ((cells_nodup _).filter _) (cells_nodup _)]
  intro i
  rw [List.mem_filter,@mem_cells c os,Bool.not_eq_true',List.isEmpty_eq_false_iff]
  constructor
  · exact fun h => h.2
  · exact fun own => ⟨touching_ne_nil.mp (List.ne_nil_of_mem (mem_touching.mpr ⟨hos,own⟩)),own⟩

theorem sum_merged_passes (few : c.accepted partitions < 2^31) :
    (((c.cells partitions.flatten).map (c.merged partitions)).map fun b => b.passes.toInt).sum =
      (partitions.map fun os => (c.cells os).length).sum := by
  rw [← sum_touching,Nat.cast_list_sum,List.map_map,List.map_map]
  refine congrArg List.sum (List.map_congr_left fun i _ => ?_)
  have low : (c.touching partitions i).length < 2^31 :=
    Nat.lt_of_le_of_lt (touching_length_le.trans acceptedIn_le) few
  rw [Function.comp_apply,merged_passes,Int32.toInt_ofNat_of_lt low]
  rfl

end Scheme

/-- A bin is copied to the regions that take its cell. -/
theorem Region.fanOut_length {κ α : Type} [Coordinate κ] (g : Grid) (rs : List (Region κ))
    (b : TemporalBin α) : (fanOut g rs b).length = (rs.filter fun r => r.takes g b.index).length := by
  simp only [fanOut,takes]
  obtain ⟨lat,lon⟩ : κ × κ := g.center b.index
  have numbered := List.zipIdx_map_fst 0 rs
  rw [List.length_filterMap_eq_countP,← List.countP_eq_length_filter,← numbered,List.countP_map,
    numbered]
  refine List.countP_congr fun p _ => ?_
  by_cases within : p.1.contains lat lon
  · simp [within]
  · simp [within]

theorem Region.takers_length {κ : Type} [Coordinate κ] (g : Grid) (rs : List (Region κ)) (i : Int64) :
    (takers g rs i).length = (rs.filter fun r => r.takes g i).length := by
  have copies := fanOut_length g rs (⟨i,0,0,[]⟩ : TemporalBin Binary32)
  rwa [fanOut_eq_takers,List.length_map] at copies

/-- Whether a call writes a bin. -/
def ProductCall.writes : ProductCall → Bool
  | .bin _ _ => true
  | _ => false

namespace Job

variable {job : Job}

theorem binCalls_writes (out : List Binary32) (bins : List (RegionBin Binary32)) :
    ((job.binCalls out bins).1.filter ProductCall.writes).length = bins.length := by
  induction bins generalizing out with
  | nil => rfl
  | cons b bs ih => exact congrArg (·+1) (ih _)

theorem groupCalls_writes (out : List Binary32) (groups : List (List (RegionBin Binary32))) :
    ((job.groupCalls out groups).filter ProductCall.writes).length = groups.flatten.length := by
  induction groups generalizing out with
  | nil => rfl
  | cons g gs ih =>
    cases g with
    | nil => exact ih out
    | cons b bs =>
      simp only [groupCalls]
      rw [List.cons_append,List.filter_cons_of_neg Bool.false_ne_true,List.filter_append,
        List.length_append,ih,binCalls_writes,List.flatten_cons,List.length_append]

/-- One bin is written for each copy. -/
theorem productCalls_writes (partitions : List (List (RegionBin Binary32))) :
    ((job.productCalls partitions).filter ProductCall.writes).length =
      partitions.flatten.length := by
  have empty : ((job.emptyRegions partitions.flatten).flatMap fun i =>
      [ProductCall.start (job.metadata i),.finish]).filter ProductCall.writes = [] := by
    rw [List.filter_eq_nil_iff]
    intro call h
    obtain ⟨i,_,h⟩ := List.mem_flatMap.mp h
    simp only [List.mem_cons,List.not_mem_nil,or_false] at h
    obtain rfl | rfl := h <;> simp [ProductCall.writes]
  rw [productCalls,List.filter_append,empty,List.append_nil,groupCalls_writes,groups_flatten]

/-- What the counters of a run stand for: of the partitions, of the bins that it merged, and of the
calls that it made. -/
structure Tally (job : Job) (inputs : List (List Observation))
    (merged : List (TemporalBin Binary32)) (made : List ProductCall) (s : Summary) : Prop where
  partitions : s.partitions = inputs.length
  observations : s.observations = (inputs.map List.length).sum
  skipped : s.skipped = (inputs.map fun os => (os.filter fun o => !job.scheme.admits o).length).sum
  spatialBins : s.spatialBins = (inputs.map fun os => (job.scheme.cells os).length).sum
  temporalBins : s.temporalBins = (job.scheme.cells inputs.flatten).length
  merged_bins : (merged.map TemporalBin.index).Perm (job.scheme.cells inputs.flatten)
  merged_observations : (merged.map fun b => b.observations.toInt).sum =
    (s.observations : Int)-s.skipped
  merged_passes : (merged.map fun b => b.passes.toInt).sum = s.spatialBins
  regionBins : s.regionBins = ((job.scheme.cells inputs.flatten).map fun i =>
    (job.regions.filter fun r => r.takes job.scheme.grid i).length).sum
  written : s.regionBins = (made.filter ProductCall.writes).length

theorem summary_tally (few_regions : job.regions.length < 2^31) (directory : Option String) {n : Nat}
    {observations : Nat → List Observation} {partitions : List (List (RegionBin Binary32))}
    (few : job.scheme.accepted ((List.range n).map observations) < 2^31)
    (copied : job.regionPass (job.temporal n observations) = .ok partitions) :
    job.Tally ((List.range n).map observations) (job.temporal n observations).flatten
      (job.productCalls partitions) (job.summary (job.spills n observations directory)
        (job.temporal n observations) partitions) := by
  have counts : ∀ i,(job.spilled directory i (observations i)).counts =
      (SpatialPass.run job.scheme (observations i)).2 := fun _ => rfl
  have merged := job.temporal_perm n observations
  have copies := (regionPass_perm few_regions copied).length_eq
  generalize inputs_eq : (List.range n).map observations = inputs at few merged ⊢
  have observed : (job.summary (job.spills n observations directory) (job.temporal n observations)
      partitions).observations = (inputs.map List.length).sum := by
    simp only [summary,spills,List.map_map,Function.comp_def,counts,SpatialPass.run_counts,
      ← inputs_eq]
  have skipped : (job.summary (job.spills n observations directory) (job.temporal n observations)
      partitions).skipped =
        (inputs.map fun os => (os.filter fun o => !job.scheme.admits o).length).sum := by
    simp only [summary,spills,List.map_map,Function.comp_def,counts,SpatialPass.run_counts,
      ← inputs_eq]
  have spatial : (job.summary (job.spills n observations directory) (job.temporal n observations)
      partitions).spatialBins = (inputs.map fun os => (job.scheme.cells os).length).sum := by
    simp only [summary,spills,List.map_map,Function.comp_def,counts,SpatialPass.run_counts,
      ← (SpatialPass.run_indices _).length_eq,List.length_map,← inputs_eq]
  have copied_length : partitions.flatten.length =
      ((job.scheme.cells inputs.flatten).map fun i =>
        (job.regions.filter fun r => r.takes job.scheme.grid i).length).sum := by
    rw [copies,Job.copies,List.length_flatMap,(merged.map _).sum_eq,List.map_map]
    simp only [Function.comp_def,Region.fanOut_length,Scheme.merged_index]
  constructor
  case partitions => rw [summary,spills,List.length_map,← inputs_eq,List.length_map]
  case observations => exact observed
  case skipped => exact skipped
  case spatialBins => exact spatial
  case temporalBins =>
    simp only [summary]
    rw [← List.length_flatten,merged.length_eq,List.length_map]
  case merged_bins =>
    refine (merged.map TemporalBin.index).trans ?_
    rw [List.map_map]
    exact .of_eq ((List.map_congr_left fun i _ => Scheme.merged_index).trans (List.map_id _))
  case merged_observations =>
    have total := @Scheme.refused_add_accepted job.scheme inputs
    rw [observed,skipped,(merged.map _).sum_eq,Scheme.sum_merged_observations few]
    omega
  case merged_passes =>
    rw [spatial,(merged.map _).sum_eq,Scheme.sum_merged_passes few]
  case regionBins =>
    simp only [summary]
    rw [← List.length_flatten,copied_length]
  case written =>
    simp only [summary]
    rw [productCalls_writes,List.length_flatten]

section

variable {directory : Option String}

/-- A partition with a spill was read and written whole. -/
theorem Binned.succeeded {id : Nat} {name : String}
    {o : Except Fault SpilledPartition × List Event} {steps : List Step}
    (h : job.Binned directory id name o steps) {spilled : SpilledPartition} (ok : o.1 = .ok spilled) :
    (∃ os,openings steps = [(name,readable os)]) ∧
      ∀ path content result,.wrote path content result ∈ steps → result = .ok () := by
  cases h with
  | refused | unencoded | unspilled => cases ok
  | inMemory binned =>
    obtain ⟨os,rfl⟩ := readable_of_binned binned
    exact ⟨⟨os,rfl⟩,by simp⟩
  | onFile binned =>
    obtain ⟨os,rfl⟩ := readable_of_binned binned
    exact ⟨⟨os,rfl⟩,by simp⟩

theorem Binned.no_reads {id : Nat} {name : String}
    {o : Except Fault SpilledPartition × List Event} {steps : List Step}
    (h : job.Binned directory id name o steps) (path : String) (content : Except IoFailure Bytes) :
    .read path content ∉ steps := by
  cases h <;> simp

/-- If all partitions have spills, each number has its observations. -/
theorem binned_readable {order : List (Nat × String)} {parts : List Part}
    (binned : List.Forall₂ (fun p part => part.1.1 = p.1 ∧
      job.Binned directory p.1 p.2 part.1.2 part.2) order parts)
    (distinct : (order.map Prod.fst).Nodup) (ok : ∀ part ∈ parts,∃ spilled,part.1.2.1 = .ok spilled) :
    ∃ observations : Nat → List Observation,openings (parts.flatMap Prod.snd) =
      order.map fun p => (p.2,readable (observations p.1)) := by
  obtain ⟨part,rfl,each⟩ := binned_positions binned distinct
  have held : ∀ i,∃ os,∀ p ∈ order,p.1 = i → openings (part i).2 = [(p.2,readable os)] := by
    intro i
    by_cases some : ∃ p ∈ order,p.1 = i
    · obtain ⟨p,hp,rfl⟩ := some
      obtain ⟨spilled,here⟩ := ok _ (List.mem_map.mpr ⟨p,hp,rfl⟩)
      obtain ⟨⟨os,opened⟩,_⟩ := (each p hp).2.succeeded here
      refine ⟨os,fun q hq same => ?_⟩
      rw [opened,List.inj_on_of_nodup_map distinct hq hp same]
    · exact ⟨[],fun p hp same => absurd ⟨p,hp,same⟩ some⟩
  choose observations opened using held
  refine ⟨observations,?_⟩
  have all : ∀ l ⊆ order,openings ((l.map fun p => part p.1).flatMap Prod.snd) =
      l.map fun p => (p.2,readable (observations p.1)) := by
    intro l inside
    induction l with
    | nil => rfl
    | cons p l ih =>
      rw [List.cons_subset] at inside
      rw [List.map_cons,List.flatMap_cons,openings_append,opened _ p inside.1 rfl,ih inside.2]
      rfl
  exact all order (List.Subset.refl _)

/-- Where all spills are recovered, what was read was there. -/
theorem Recovered.reads {ps : List SpilledPartition}
    {result : Except Fault (List (SourceRecords (SpatialBin Binary32)))} {steps : List Step}
    (h : job.Recovered ps result steps)
    {sources : List (SourceRecords (SpatialBin Binary32))} (ok : result = .ok sources)
    {path : String} {content : Except IoFailure Bytes} (mem : .read path content ∈ steps) :
    ∃ written,content = .ok written := by
  induction h generalizing sources with
  | done => cases mem
  | failed => cases ok
  | @next p _ _ _ _ _ _ first decoded _ ih =>
    obtain ⟨rest,ok,_⟩ := map_eq_ok.mp ok
    rcases List.mem_append.mp mem with mem | mem
    · generalize p.spill = spill at first
      cases first with
      | memory => cases mem
      | file =>
        simp only [List.mem_cons,Step.read.injEq,reduceCtorEq,List.not_mem_nil,or_false] at mem
        obtain ⟨rfl,rfl⟩ := mem
        cases content with
        | error => cases decoded
        | ok written => exact ⟨written,rfl⟩
    · exact ih ok mem

/-- Nothing disturbed a run that ended well, if its files gave back what was written to them. -/
theorem Ran.succeeded {order : List (Nat × String)} {outcome : Outcome} {log : List Step}
    (ran : job.Ran directory order outcome log) (distinct : (order.map Prod.fst).Nodup)
    (kept : ∀ path content,.read path (.ok content) ∈ log → ∃ result,.wrote path content result ∈ log)
    {summary : Summary} (ok : outcome.result = .ok summary) :
    ∃ observations,Undisturbed order observations log := by
  cases ran with
  | failed => cases ok
  | @passed parts _ steps binned none passed =>
    have spilled : ∀ part ∈ parts,∃ spilled,part.1.2.1 = .ok spilled := by
      intro part hpart
      obtain ⟨all,eq⟩ := firstFault?_eq_none.mp none
      have mem := mem_results.mpr ⟨part,hpart,rfl⟩
      rw [eq] at mem
      obtain ⟨p,_,eq⟩ := List.mem_map.mp mem
      exact ⟨p,eq.symm⟩
    obtain ⟨observations,opened⟩ := binned_readable binned distinct spilled
    refine ⟨observations,?_,?_,?_⟩
    · rw [openings_append,passed.opens,List.append_nil,opened]
    · intro path content result mem
      rcases List.mem_append.mp mem with mem | mem
      · obtain ⟨part,hpart,mem⟩ := List.mem_flatMap.mp mem
        obtain ⟨p,_,goes⟩ := binned_part binned part hpart
        obtain ⟨_,here⟩ := spilled part hpart
        exact (goes.succeeded here).2 _ _ _ mem
      · rcases passed.steps _ mem with ⟨_,_,eq⟩ | ⟨_,_,eq⟩ | ⟨_,_,eq⟩ <;> cases eq
    · intro path content mem
      have read : ∃ written,content = .ok written := by
        rcases List.mem_append.mp mem with mem | mem
        · obtain ⟨part,hpart,mem⟩ := List.mem_flatMap.mp mem
          obtain ⟨p,_,goes⟩ := binned_part binned part hpart
          exact absurd mem (goes.no_reads path content)
        · cases passed with
          | unrecovered | uncopied => cases ok
          | formatted back _ performed =>
            rcases List.mem_append.mp mem with mem | mem
            · exact back.reads rfl mem
            · obtain ⟨_,_,eq⟩ := performed.steps _ mem
              cases eq
      obtain ⟨written,rfl⟩ := read
      obtain ⟨result,wrote⟩ := kept path written mem
      exact ⟨written,result,wrote,rfl⟩

end

end Job

/-- A run that ended well has read observations only, and its counters are what they and its bins and
calls add up to, if files gave back what was written to them. -/
theorem run_conserves {cosine : Binary64 → Binary64} {id : String} {settings : Settings} {job : Job}
    (made : Job.makeWith cosine id settings = .ok job) {σ : Type} (s : Surroundings (StateM σ))
    {names : List String} {order : List (Nat × String)} (perm : order.Perm (Job.numbered names))
    (w : σ) (kept : ∀ path content,.read path (.ok content) ∈ job.log s order w →
      ∃ result,.wrote path content result ∈ job.log s order w)
    {summary : Summary} (ok : (job.outcome s order w).result = .ok summary) :
    ∃ (observations : Nat → List Observation) (partitions : List (List (RegionBin Binary32))),
      openings (job.log s order w) =
        order.map (fun p => (p.2,Job.readable (observations p.1))) ∧
      job.regionPass (job.temporal names.length observations) = .ok partitions ∧
      calls (job.log s order w) = (job.productCalls partitions).map (fun c => (c,.ok ())) ∧
      (job.scheme.accepted ((List.range names.length).map observations) < 2^31 →
        job.Tally ((List.range names.length).map observations)
          (job.temporal names.length observations).flatten
          ((calls (job.log s order w)).map Prod.fst) summary) := by
  have ran := job.ran s order w
  have distinct := Job.numbers_nodup perm
  obtain ⟨observations,calm⟩ := ran.succeeded distinct kept ok
  rcases ran.undisturbed perm calm with ⟨⟨f,failed⟩,_⟩ | ended
  · rw [failed] at ok
    cases ok
  obtain ⟨partitions,written,steps,copied,performed,same,result⟩ := ended
  rw [result] at ok
  obtain ⟨_,rfl,rfl⟩ := map_eq_ok.mp ok
  rw [same,performed.whole rfl]
  refine ⟨observations,partitions,calm.opened,copied,rfl,?_⟩
  intro few
  have sent : ((job.productCalls partitions).map fun c =>
      (c,(.ok () : Except Fault Unit))).map Prod.fst = job.productCalls partitions := by
    rw [List.map_map]
    exact List.map_id _
  rw [sent]
  exact Job.summary_tally (Job.made made).few _ few copied

/-- What was read in an order is known from it. -/
theorem Job.readable_unique {order : List (Nat × String)} {read held : Nat → List Observation}
    (same : order.map (fun p => (p.2,readable (read p.1))) =
      order.map fun p => (p.2,readable (held p.1))) : ∀ p ∈ order,read p.1 = held p.1 := by
  intro p hp
  have items : readable (read p.1) = readable (held p.1) :=
    congrArg Prod.snd (List.map_inj_left.mp same p hp)
  exact List.map_injective_iff.mpr (fun _ _ => Except.ok.inj) (Except.ok.inj items)

/-- What the survey adds up to. -/
theorem Job.Surveyed.counts {job : Job} (h : Surveyed job) {merged : List (TemporalBin Binary32)}
    {made : List ProductCall} {s : Summary} (tally : job.Tally Settings.surveys merged made s) :
    (s.partitions,s.observations,s.skipped) = (3,7,2) ∧
      (s.spatialBins,s.temporalBins,s.regionBins) = (4,3,6) := by
  constructor
  · rw [tally.partitions,tally.observations,tally.skipped,h.refused]
    rfl
  · obtain ⟨first,second,third⟩ := h.takers_eq
    rw [tally.spatialBins,tally.temporalBins,tally.regionBins,h.cells,h.partitions]
    simp only [← Region.takers_length,List.map_cons,List.map_nil,first,second,third]
    rfl

/-- Two of seven observations are refused, and six copies are written of three cells. -/
theorem run_conserves_survey :
    ∃ job summary,Job.makeWith Grid.fourRows "survey" .survey = .ok job ∧
    let s := Surroundings.quiet Settings.surveyed
    (job.outcome s Job.surveyOrder ()).result = .ok summary ∧
    job.Tally Settings.surveys (job.temporal 3 Job.surveyPart).flatten
      ((calls (job.log s Job.surveyOrder ())).map Prod.fst) summary ∧
    (summary.partitions,summary.observations,summary.skipped) = (3,7,2) ∧
    (summary.spatialBins,summary.temporalBins,summary.regionBins) = (4,3,6) := by
  obtain ⟨job,survey⟩ := Job.surveyed
  obtain ⟨_,_,_,result⟩ := survey.succeeds
  obtain ⟨read,_,opened,_,_,tally⟩ := run_conserves survey.made (.quiet Settings.surveyed)
    Job.surveyOrder_perm () (fun path content mem =>
      absurd mem ((job.ran (.quiet Settings.surveyed) Job.surveyOrder ()).no_reads path _)) result
  have held := Job.readable_unique ((Job.survey_undisturbed job).opened.symm.trans opened)
  have each : ∀ i ∈ List.range 3,read i = Job.surveyPart i := by
    intro i hi
    have there : i ∈ Job.surveyOrder.map Prod.fst := by
      revert hi i
      decide
    obtain ⟨p,hp,rfl⟩ := List.mem_map.mp there
    exact (held p hp).symm
  have inputs : (List.range ["a","b","c"].length).map read = Settings.surveys :=
    List.map_congr_left each
  have merged : job.temporal ["a","b","c"].length read = job.temporal 3 Job.surveyPart := by
    have sources : job.sources 3 read = job.sources 3 Job.surveyPart :=
      List.map_congr_left fun i hi => congrArg (job.recovered i) (each i hi)
    exact congrArg job.temporalPass sources
  rw [inputs,merged] at tally
  have tally := tally (Job.survey_accepted _)
  exact ⟨job,_,survey.made,result,tally,survey.counts tally⟩

end GlobeBins

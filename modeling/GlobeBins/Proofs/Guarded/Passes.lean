import GlobeBins.Proofs.Guarded.Bins
import GlobeBins.Proofs.Guarded.Grids
import GlobeBins.Proofs.Job.Cells

namespace GlobeBins

/-- Statistics read samples of the variables only. -/
def Scheme.Resolved (c : Scheme) : Prop :=
  ∀ s ∈ c.ensemble.statistics,∀ i ∈ s.reads,i < c.vars.length

/-- An accepted observation has a sample for every variable. -/
theorem Scheme.samples_of_admits {c : Scheme} {o : Observation} (h : c.admits o = true) :
    c.vars.length ≤ o.samples.length := by
  simp only [admits,Variable.refuses,Bool.and_eq_true,Bool.not_eq_true',Bool.or_eq_false_iff,
    decide_eq_false_iff_not] at h
  omega

namespace Guarded

/-- The bin of a cell, made when the cell is first met. -/
def binOf (c : Scheme) (p : SpatialPass) (index : Int64) : Except Stop (SpatialBin Binary32) :=
  match p.bins[index]? with
  | some b => return b
  | none => newSpatial c.ensemble index

/-- As `SpatialPass.offer`, with a map that bins are put back into. -/
def offer (c : Scheme) (p : SpatialPass) (o : Observation) : Except Stop SpatialPass := do
  if c.admits o then
    let index ← binAt c.grid o.lat o.lon
    let b ← addObservation c.ensemble o.samples (← binOf c p index)
    return ⟨p.bins.insert index b,p.observations+1,p.skipped⟩
  else return ⟨p.bins,p.observations+1,p.skipped+1⟩

def binPartition (c : Scheme) (os : List Observation) :
    Except Stop (List (SpatialBin Binary32) × PassCounts) := do
  let p ← os.foldlM (offer c) .empty
  let bins ← p.bins.toList.mapM fun b => finishBin c.ensemble b.2
  return (bins,⟨p.observations,p.skipped,p.bins.size⟩)

/-- A record goes to one of the partitions that there are. -/
def shuffle {κ ρ : Type} [Ord κ] (partitions : Nat) (route : κ → Except Stop Nat) (key : ρ → κ)
    (sources : List (SourceRecords ρ)) : Except Stop (List (Partition κ ρ)) := do
  let routed ← (arrival sources).mapM fun r => do
    let id ← item (List.range partitions) (← route (key r))
    return (id,r)
  return (List.range partitions).map fun id =>
    ⟨id,groupByKey key ((routed.filter (·.1 = id)).map Prod.snd)⟩

section

variable (job : Job)

def temporalPass (sources : List (SourceRecords (SpatialBin Binary32))) :
    Except Stop (List (List (TemporalBin Binary32))) := do
  let (south,north) := job.latitudeExtent
  let rows ← rowsBetween job.scheme.grid job.settings.reducers south north
  let route (bin : Int64) := partitionOfRow rows (rowOf rows.grid bin)
  let partitions ← shuffle rows.partitions route SpatialBin.index sources
  partitions.mapM fun p => p.groups.mapM fun g => merge job.scheme.ensemble g.1 g.2

def encodeCopies (bins : List (TemporalBin Binary32)) : Except Stop Bytes := do
  let copies ← bins.mapM (fanOut job.scheme.grid job.regions)
  (job.regionCodec.encodeRegion copies.flatten).mapError .fault

/-- The number of regions is checked again before bins are copied to them. -/
def regionPass (temporal : List (List (TemporalBin Binary32))) :
    Except Stop (List (List (RegionBin Binary32))) := do
  if job.regions.length ≤ Job.maxRegions then
    let encoded ← temporal.mapM (encodeCopies job)
    let decoded ← encoded.mapM fun b => (job.regionCodec.decodeRegion b).mapError .fault
    let sources := decoded.zipIdx.map fun p => ⟨p.2,p.1⟩
    let partitions ← shuffle (max job.settings.regionPartitions 1)
      (partitionOfRegion job.settings.regionPartitions) RegionBin.key sources
    return partitions.map fun p => p.groups.flatMap Prod.snd
  else throw (.fault .overflow)

end

/-- Two passes that have counted the same and have the same bins, wherever their maps keep them. -/
structure Agree (p q : SpatialPass) : Prop where
  bins : ∀ i : Int64,p.bins[i]? = q.bins[i]?
  observations : p.observations = q.observations
  skipped : p.skipped = q.skipped

section

variable {c : Scheme}

theorem binOf_eq (p : SpatialPass) (index : Int64) :
    binOf c p index = .ok ((p.bins[index]?).getD (c.ensemble.newSpatial index)) := by
  unfold binOf
  cases p.bins[index]? with
  | none => exact newSpatial_eq index
  | some b => rfl

/-- One observation, offered to passes that agree. -/
theorem offer_eq (resolved : c.Resolved) {p q : SpatialPass} (agree : Agree p q) {o : Observation}
    {n : Nat} (bin : c.admits o = true →
      let b := (q.bins[c.cellOf o]?).getD (c.ensemble.newSpatial (c.cellOf o))
      b.features.length = c.ensemble.spatialCount ∧ b.observations = Int32.ofNat n ∧ n+1 < 2^31) :
    ∃ p',offer c p o = .ok p' ∧ Agree p' (q.offer c o) := by
  by_cases admitted : c.admits o = true
  · obtain ⟨width,count,low⟩ := bin admitted
    have enough : ∀ s ∈ c.ensemble.statistics,∀ i ∈ s.reads,i < o.samples.length :=
      fun s hs i hi => Nat.lt_of_lt_of_le (resolved s hs i hi) (Scheme.samples_of_admits admitted)
    have step : offer c p o = .ok ⟨p.bins.insert (c.cellOf o) (c.ensemble.addSamples o.samples
        ((q.bins[c.cellOf o]?).getD (c.ensemble.newSpatial (c.cellOf o)))),
        p.observations+1,p.skipped⟩ := by
      have cell : binAt c.grid o.lat o.lon = .ok (c.cellOf o) := binAt_eq o.lat o.lon
      rw [offer,if_pos admitted,cell,ok_bind,binOf_eq,ok_bind,agree.bins,
        addObservation_eq enough width count low]
      rfl
    refine ⟨_,step,?_,?_,?_⟩
    · intro i
      rw [SpatialPass.offer_getElem?,Std.TreeMap.getElem?_insert,agree.bins]
      simp only [admitted,Bool.true_and,Std.LawfulEqOrd.compare_eq_iff_eq,beq_iff_eq]
      split
      next here => rw [here]
      next => rfl
    · simp [SpatialPass.offer,admitted,agree.observations]
    · simp [SpatialPass.offer,admitted,agree.skipped]
  · refine ⟨⟨p.bins,p.observations+1,p.skipped+1⟩,?_,?_,?_,?_⟩
    · rw [offer,if_neg admitted]
      rfl
    · intro i
      rw [SpatialPass.offer_of_not_admits q (by simpa using admitted)]
      exact agree.bins i
    · simp [SpatialPass.offer,admitted,agree.observations]
    · simp [SpatialPass.offer,admitted,agree.skipped]

/-- What the bin of a cell counts is at most what is accepted. -/
theorem foldlM_offer (resolved : c.Resolved) {os : List Observation}
    (few : (os.filter c.admits).length < 2^31) :
    ∃ p,os.foldlM (offer c) .empty = .ok p ∧ Agree p (os.foldl (SpatialPass.offer c) .empty) := by
  induction os using List.reverseRecOn with
  | nil => exact ⟨.empty,rfl,fun _ => rfl,rfl,rfl⟩
  | append_singleton os o ih =>
    rw [List.filter_append,List.length_append] at few
    obtain ⟨p,folded,agree⟩ := ih (by omega)
    have bin : c.admits o = true →
        let b := ((os.foldl (SpatialPass.offer c) .empty).bins[c.cellOf o]?).getD
          (c.ensemble.newSpatial (c.cellOf o))
        b.features.length = c.ensemble.spatialCount ∧
          b.observations = Int32.ofNat (c.inCell os (c.cellOf o)).length ∧
          (c.inCell os (c.cellOf o)).length+1 < 2^31 := by
      intro admitted
      have least := Scheme.inCell_length_le (c := c) os (c.cellOf o)
      have one : ([o].filter c.admits).length = 1 := by simp [admitted]
      have gathered : ((os.foldl (SpatialPass.offer c) .empty).bins[c.cellOf o]?).getD
          (c.ensemble.newSpatial (c.cellOf o)) = c.gathered os (c.cellOf o) := by
        rw [SpatialPass.bins_getElem?]
        split
        next none =>
          rw [Scheme.gathered,none]
          rfl
        next => rfl
      rw [gathered]
      exact ⟨Scheme.gathered_length os _,Scheme.gathered_observations os _,by omega⟩
    obtain ⟨p',step,agree'⟩ := offer_eq resolved agree bin
    refine ⟨p',?_,?_⟩
    · rw [List.foldlM_append,folded,ok_bind,List.foldlM_cons,step,ok_bind,List.foldlM_nil]
      rfl
    · rw [List.foldl_append]
      exact agree'

theorem binPartition_eq (resolved : c.Resolved) {os : List Observation}
    (few : (os.filter c.admits).length < 2^31) :
    binPartition c os = .ok (SpatialPass.run c os) := by
  obtain ⟨p,folded,agree⟩ := foldlM_offer resolved few
  have same := Std.TreeMap.Equiv.of_forall_constGet?_eq agree.bins
  have finished : p.bins.toList.mapM (fun b => finishBin c.ensemble b.2) =
      .ok (p.bins.toList.map fun b => c.ensemble.finishSpatial b.2) := by
    refine mapM_ok fun b hb => finishBin_eq ?_
    obtain ⟨i,b⟩ := b
    rw [Std.TreeMap.mem_toList_iff_getElem?_eq_some,agree.bins,SpatialPass.bins_getElem?] at hb
    split at hb
    next => cases hb
    next =>
      cases hb
      exact Scheme.gathered_length os i
  rw [binPartition,folded,ok_bind,finished,ok_bind,same.toList_eq,same.size_eq,agree.observations,
    agree.skipped]
  rfl

end

section

variable {κ ρ : Type} [Ord κ] {routing : Routing κ} {route : κ → Except Stop Nat} {key : ρ → κ}

theorem shuffle_eq (sources : List (SourceRecords ρ))
    (step : ∀ k,route k = .ok (routing.partitionOf k))
    (inside : ∀ k,routing.partitionOf k < routing.partitions) :
    shuffle routing.partitions route key sources = .ok (GlobeBins.shuffle routing key sources) := by
  have routed : (arrival sources).mapM (fun r => do
      let id ← item (List.range routing.partitions) (← route (key r))
      return (id,r)) = .ok ((arrival sources).map fun r => (routing.partitionOf (key r),r)) := by
    apply mapM_ok
    intro r _
    rw [step,ok_bind,item_eq (List.getElem?_range (inside (key r)))]
    rfl
  rw [shuffle,routed]
  rfl

end

section

variable {job : Job} {n : Nat} {observations : Nat → List Observation}

/-- All bins of a cell have no more observations than are accepted. -/
theorem merge_withKey
    (few : job.scheme.accepted ((List.range n).map observations) < 2^31) (i : Int64) :
    let group := withKey SpatialBin.index i (arrival (job.sources n observations))
    merge job.scheme.ensemble i group = .ok (job.scheme.ensemble.merge i group) := by
  intro group
  have cells : group = (job.scheme.touching ((List.range n).map observations) i).map
      fun os => job.scheme.cell os i := job.withKey_sources n observations i
  have total : job.scheme.acceptedIn (job.scheme.touching ((List.range n).map observations) i) i <
      2^31 := by
    rw [Scheme.acceptedIn_touching]
    exact Nat.lt_of_le_of_lt Scheme.acceptedIn_le few
  have passes : (job.scheme.touching ((List.range n).map observations) i).length < 2^31 := by
    rw [Scheme.acceptedIn_touching] at total
    exact Nat.lt_of_le_of_lt Scheme.touching_length_le total
  have mergeable : Mergeable job.scheme.ensemble
      ((job.scheme.touching ((List.range n).map observations) i).map fun os =>
        (job.scheme.inCell os i).length) group := by
    rw [cells,Mergeable,List.forall₂_map_left_iff,List.forall₂_map_right_iff,List.forall₂_same]
    intro os _
    exact ⟨Scheme.cell_length os i,Scheme.cell_observations os i⟩
  refine merge_eq i mergeable total ?_
  rw [cells,List.length_map]
  exact passes

/-- Words find the partitions of all cells. -/
def Routed (job : Job) : Prop :=
  let rows := RowRouting.ofLatitudes job.scheme.grid job.settings.reducers job.latitudeExtent.1
    job.latitudeExtent.2
  ∀ bin,rows.partitionOfRow (rowOf job.scheme.grid bin) =
    rows.partitionOfRow (job.scheme.grid.rowOf bin)

theorem routed (fits : job.scheme.grid.bins < 2^63) : Routed job := by
  intro bin
  rw [rowOf_eq fits]

/-- A single partition is found whatever the rows are taken for. -/
theorem routed_single (one : job.settings.reducers = 1) : Routed job := by
  intro bin
  have single : max job.settings.reducers 1 = 1 := by rw [one,Nat.max_self]
  simp [RowRouting.partitionOfRow,RowRouting.ofLatitudes,RowRouting.ofRows,single]

theorem temporalPass_eq (routed : Routed job) (positive : 0 < job.settings.reducers)
    (layout : job.settings.reducers*job.scheme.grid.rows < 2^64)
    (few : job.scheme.accepted ((List.range n).map observations) < 2^31) :
    temporalPass job (job.sources n observations) = .ok (job.temporal n observations) := by
  let rows := RowRouting.ofLatitudes job.scheme.grid job.settings.reducers job.latitudeExtent.1
    job.latitudeExtent.2
  have some : 0 < rows.partitions := RowRouting.ofLatitudes_partitions _ _ _ _
  have order : rows.first ≤ rows.last := Nat.min_le_right _ _
  have low : (rows.last-rows.first+1)*rows.partitions < 2^64 := by
    have rows_pos : 0 < job.scheme.grid.rows := job.scheme.grid.rows_pos
    have last : rows.last ≤ job.scheme.grid.rows-1 := Nat.min_le_right _ _
    have partitions : rows.partitions = job.settings.reducers := Nat.max_eq_left positive
    rw [partitions,Nat.mul_comm]
    exact Nat.lt_of_le_of_lt (Nat.mul_le_mul_left _ (by omega)) layout
  have shuffled : shuffle rows.partitions
      (fun bin => partitionOfRow rows (rowOf rows.grid bin)) SpatialBin.index
      (job.sources n observations) =
        .ok (GlobeBins.shuffle rows.routing SpatialBin.index (job.sources n observations)) := by
    refine shuffle_eq _ (fun bin => ?_) (rows.routing_inside some)
    rw [partitionOfRow_eq order some low]
    exact congrArg Except.ok (routed bin)
  have merged : (GlobeBins.shuffle rows.routing SpatialBin.index (job.sources n observations)).mapM
      (fun p => p.groups.mapM fun g => merge job.scheme.ensemble g.1 g.2) =
        .ok (job.temporal n observations) := by
    refine mapM_ok fun p hp => mapM_ok fun g hg => ?_
    rw [((mem_groups hp).mp hg).2.2]
    exact merge_withKey few g.1
  simp only [temporalPass,rowsBetween_eq,ok_bind]
  rw [shuffled,ok_bind]
  exact merged

theorem encodeCopies_eq (fits : job.scheme.grid.bins < 2^63) (bins : List (TemporalBin Binary32)) :
    encodeCopies job bins = (job.encodeCopies bins).mapError .fault := by
  have copies : bins.mapM (fanOut job.scheme.grid job.regions) =
      .ok (bins.map (Region.fanOut job.scheme.grid job.regions)) :=
    mapM_ok fun b _ => fanOut_eq fits _ b
  rw [encodeCopies,copies,ok_bind,← List.flatMap_def]
  rfl

/-- Any bin stops the second pass where the number of bins has become negative. -/
theorem regionPass_stops (low : 2^63 < job.scheme.grid.bins) (high : job.scheme.grid.bins < 2^64)
    (few : job.regions.length < 2^31) {temporal : List (List (TemporalBin Binary32))}
    (some : temporal.flatten ≠ []) : regionPass job temporal = .error .bounds := by
  have room : job.regions.length ≤ Job.maxRegions := by
    unfold Job.maxRegions
    omega
  have written : temporal.mapM (encodeCopies job) = .error .bounds := by
    induction temporal with
    | nil => exact absurd rfl some
    | cons bins temporal ih =>
      rw [List.mapM_cons]
      cases bins with
      | nil =>
        have none : encodeCopies job [] = .ok [] := rfl
        rw [none,ok_bind,ih some]
        rfl
      | cons b bins =>
        rw [encodeCopies,List.mapM_cons,fanOut_stops low high]
        rfl
  rw [regionPass,if_pos room,written]
  rfl

theorem regionPass_eq (fits : job.scheme.grid.bins < 2^63) (few : job.regions.length < 2^31)
    (small : job.settings.regionPartitions < 2^31) {temporal : List (List (TemporalBin Binary32))}
    {partitions : List (List (RegionBin Binary32))}
    (h : job.regionPass temporal = .ok partitions) : regionPass job temporal = .ok partitions := by
  have room : job.regions.length ≤ Job.maxRegions := by
    unfold Job.maxRegions
    omega
  simp only [Job.regionPass,bind_eq_ok] at h
  obtain ⟨encoded,written,decoded,read,h⟩ := h
  have written' : temporal.mapM (encodeCopies job) = .ok encoded := by
    rw [mapM_eq_ok] at written ⊢
    apply written.imp
    intro bins b ok
    rw [encodeCopies_eq fits,ok]
    rfl
  have read' : encoded.mapM (fun b => (job.regionCodec.decodeRegion b).mapError Stop.fault) =
      .ok decoded := by
    rw [mapM_eq_ok] at read ⊢
    apply read.imp
    intro b bins ok
    rw [ok]
    rfl
  have shuffled : shuffle (max job.settings.regionPartitions 1)
      (partitionOfRegion job.settings.regionPartitions) RegionBin.key
      (decoded.zipIdx.map fun p => ⟨p.2,p.1⟩) =
        .ok (GlobeBins.shuffle (regionRouting job.settings.regionPartitions) RegionBin.key
          (decoded.zipIdx.map fun p => ⟨p.2,p.1⟩)) :=
    shuffle_eq _ (partitionOfRegion_eq small) (regionRouting_inside small)
  rw [regionPass,if_pos room,written',ok_bind,read',ok_bind]
  simp only
  rw [shuffled,ok_bind]
  exact congrArg Except.ok (Except.ok.inj h)

end

end Guarded

end GlobeBins

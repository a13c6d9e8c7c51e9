import GlobeBins.Proofs.Job.Cells

namespace GlobeBins

/-- Counters that fit their words, as long as the number of observations does. -/
structure Summary.Bounded (s : Summary) (offered : Nat) : Prop where
  observations : s.observations = offered
  skipped : s.skipped ≤ offered
  spatialBins : s.spatialBins < 2^31
  temporalBins : s.temporalBins < 2^31
  regionBins : s.regionBins < 2^62

/-- Each bin of a partition has an accepted observation of its own. -/
theorem SpatialPass.run_length_le {c : Scheme} (os : List Observation) :
    (run c os).1.length ≤ (os.filter c.admits).length := by
  have cells := (run_indices (c := c) os).length_eq
  rw [List.length_map] at cells
  rw [cells,← List.length_map (f := c.cellOf)]
  exact (List.dedup_sublist _).length_le

theorem Region.fanOut_length_le {κ α : Type} [Coordinate κ] (g : Grid) (rs : List (Region κ))
    (b : TemporalBin α) : (fanOut g rs b).length ≤ rs.length := by
  simp only [fanOut]
  refine Nat.le_trans (List.length_filterMap_le _ _) ?_
  rw [List.length_zipIdx]

namespace Job

variable {job : Job}

/-- Each merged bin has a record of its own. -/
theorem temporalPass_length_le (sources : List (SourceRecords (SpatialBin Binary32))) :
    (job.temporalPass sources).flatten.length ≤
      (sources.map fun s => s.records.length).sum := by
  obtain ⟨cells,nodup,members,eq⟩ := job.temporalPass_flatten sources
  have recorded : cells ⊆ (arrival sources).map SpatialBin.index := by
    intro i hi
    obtain ⟨b,hb⟩ := List.exists_mem_of_ne_nil _ ((members i).mp hi)
    obtain ⟨mem,same⟩ := mem_withKey.mp hb
    exact List.mem_map.mpr ⟨b,mem,Std.LawfulEqOrd.eq_of_compare same⟩
  have least := (List.subperm_of_subset nodup recorded).length_le
  rw [List.length_map,(arrival_perm sources).length_eq,List.length_flatMap] at least
  rw [eq,List.length_map]
  exact least

theorem copies_length_le (temporal : List (List (TemporalBin Binary32))) :
    (job.copies temporal).length ≤ temporal.flatten.length*job.regions.length := by
  rw [copies]
  induction temporal.flatten with
  | nil => exact Nat.zero_le _
  | cons b bs ih =>
    have first := Region.fanOut_length_le job.scheme.grid job.regions b
    rw [List.flatMap_cons,List.length_append,List.length_cons,Nat.succ_mul]
    omega

theorem summary_bounded (few : job.regions.length < 2^31) (directory : Option String) {n : Nat}
    {observations : Nat → List Observation} {partitions : List (List (RegionBin Binary32))}
    (accepted : job.scheme.accepted ((List.range n).map observations) < 2^31)
    (copied : job.regionPass (job.temporal n observations) = .ok partitions) :
    (job.summary (job.spills n observations directory) (job.temporal n observations)
      partitions).Bounded ((List.range n).map fun i => (observations i).length).sum := by
  have counts : ∀ i,(job.spilled directory i (observations i)).counts =
      (SpatialPass.run job.scheme (observations i)).2 := fun _ => rfl
  have spatial : ((List.range n).map fun i =>
      (SpatialPass.run job.scheme (observations i)).1.length).sum < 2^31 := by
    refine Nat.lt_of_le_of_lt ?_ accepted
    rw [Scheme.accepted,List.map_map]
    exact List.sum_le_sum fun i _ => SpatialPass.run_length_le (observations i)
  have temporal : (job.temporal n observations).flatten.length < 2^31 := by
    refine Nat.lt_of_le_of_lt (temporalPass_length_le _) ?_
    rw [sources,List.map_map]
    exact spatial
  constructor
  case observations =>
    simp only [summary,spills,List.map_map]
    refine congrArg List.sum (List.map_congr_left fun i _ => ?_)
    simp only [Function.comp_apply,counts,SpatialPass.run_counts]
  case skipped =>
    simp only [summary,spills,List.map_map]
    apply List.sum_le_sum
    intro i _
    simp only [Function.comp_apply,counts,SpatialPass.run_counts]
    exact List.length_filter_le _ _
  case spatialBins =>
    simp only [summary,spills,List.map_map,Function.comp_def,counts,SpatialPass.run_counts]
    exact spatial
  case temporalBins =>
    simp only [summary]
    rw [← List.length_flatten]
    exact temporal
  case regionBins =>
    simp only [summary]
    rw [← List.length_flatten,(regionPass_perm few copied).length_eq]
    have most := Nat.mul_le_mul (Nat.le_sub_one_of_lt temporal) (Nat.le_sub_one_of_lt few)
    exact Nat.lt_of_le_of_lt (Nat.le_trans (copies_length_le _) most) (by decide)

end Job

end GlobeBins

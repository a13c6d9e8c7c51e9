import GlobeBins.Proofs.Job.Made
import GlobeBins.Proofs.Job.Passes
import GlobeBins.Proofs.Job.Undisturbed

namespace GlobeBins

namespace Scheme

variable (c : Scheme) (partitions : List (List Observation)) (i : Int64)

/-- The partitions with an accepted observation in a cell. -/
def touching : List (List Observation) := partitions.filter fun os => !(c.inCell os i).isEmpty

/-- The bin of a cell over all partitions. -/
def merged : TemporalBin Binary32 :=
  c.ensemble.merge i ((c.touching partitions i).map fun os => c.cell os i)

/-- Number of accepted observations. -/
def accepted : Nat := (partitions.map fun os => (os.filter c.admits).length).sum

/-- Number of those in a cell. -/
def acceptedIn : Nat := (partitions.map fun os => (c.inCell os i).length).sum

variable {c partitions i}

theorem mem_touching {os : List Observation} :
    os ∈ c.touching partitions i ↔ os ∈ partitions ∧ c.inCell os i ≠ [] := by
  simp [touching]

theorem accepted_le : c.accepted partitions ≤ (partitions.map List.length).sum :=
  List.sum_le_sum fun os _ => List.length_filter_le c.admits os

theorem acceptedIn_le : c.acceptedIn partitions i ≤ c.accepted partitions := by
  induction partitions with
  | nil => exact Nat.le_refl _
  | cons os ps ih =>
    have here := inCell_length_le (c := c) os i
    simp only [acceptedIn,accepted,List.map_cons,List.sum_cons] at ih ⊢
    omega

theorem acceptedIn_touching : c.acceptedIn (c.touching partitions i) i = c.acceptedIn partitions i := by
  induction partitions with
  | nil => rfl
  | cons os ps ih =>
    simp only [acceptedIn,touching] at ih ⊢
    by_cases none : c.inCell os i = []
    · simpa [none] using ih
    · simpa [none] using ih

theorem touching_length_le : (c.touching partitions i).length ≤ c.acceptedIn partitions i := by
  rw [← acceptedIn_touching]
  have each : ∀ os ∈ c.touching partitions i,0 < (c.inCell os i).length :=
    fun os hos => List.length_pos_iff.mpr (mem_touching.mp hos).2
  generalize c.touching partitions i = ps at each
  induction ps with
  | nil => exact Nat.zero_le _
  | cons os ps ih =>
    have first := each os (by simp)
    have rest := ih fun os' h => each os' (by simp [h])
    simp only [acceptedIn,List.map_cons,List.sum_cons,List.length_cons] at rest ⊢
    omega

theorem inCell_flatten_length :
    (c.inCell partitions.flatten i).length = c.acceptedIn partitions i := by
  rw [acceptedIn,inCell,List.filter_flatten,List.length_flatten,List.map_map]
  rfl

theorem touching_ne_nil : c.touching partitions i ≠ [] ↔ i ∈ c.cells partitions.flatten := by
  rw [mem_cells,← List.length_pos_iff,← List.length_pos_iff,inCell_flatten_length]
  constructor
  · exact fun some => Nat.lt_of_lt_of_le some touching_length_le
  · intro some
    by_contra none
    rw [List.length_pos_iff,not_not] at none
    rw [← acceptedIn_touching,none] at some
    cases some

theorem merged_index : (c.merged partitions i).index = i := Ensemble.merge_index _ i _

theorem merged_observations :
    (c.merged partitions i).observations = Int32.ofNat (c.acceptedIn partitions i) := by
  have sum : ∀ ps : List (List Observation),
      ((ps.map fun os => c.cell os i).map SpatialBin.observations).sum =
        Int32.ofNat (c.acceptedIn ps i) := by
    intro ps
    induction ps with
    | nil => rfl
    | cons os ps ih =>
      simp only [acceptedIn,List.map_cons,List.sum_cons,cell_observations,Int32.ofNat_add] at ih ⊢
      rw [ih]
  have folded := (c.ensemble.foldl_addCell ((c.touching partitions i).map fun os => c.cell os i)
    (c.ensemble.newTemporal i)).1
  rw [sum,acceptedIn_touching] at folded
  exact folded.trans (Int32.zero_add _)

theorem merged_passes :
    (c.merged partitions i).passes = Int32.ofNat (c.touching partitions i).length := by
  have folded := (c.ensemble.foldl_addCell ((c.touching partitions i).map fun os => c.cell os i)
    (c.ensemble.newTemporal i)).2.1
  rw [List.length_map] at folded
  exact folded.trans (Int32.zero_add _)

end Scheme

namespace Job

variable (job : Job) (n : Nat) (observations : Nat → List Observation)

/-- What a cell is merged from. -/
theorem withKey_sources (i : Int64) :
    withKey SpatialBin.index i (arrival (job.sources n observations)) =
      (job.scheme.touching ((List.range n).map observations) i).map fun os =>
        job.scheme.cell os i := by
  have sorted : (job.sources n observations).Pairwise fun a b => a.source ≤ b.source := by
    rw [sources,List.pairwise_map]
    exact List.pairwise_lt_range.imp Nat.le_of_lt
  rw [arrival_sorted sorted,sources,List.flatMap_map,withKey,List.filter_flatMap]
  generalize List.range n = ids
  induction ids with
  | nil => rfl
  | cons j ids ih =>
    have here := SpatialPass.run_withKey (c := job.scheme) (observations j) i
    rw [List.flatMap_cons,ih]
    simp only [withKey] at here
    simp only [recovered,here,Scheme.touching,List.map_cons]
    by_cases none : job.scheme.inCell (observations j) i = []
    · simp [none]
    · simp [none]

/-- Cells that an accepted observation falls in have one bin each. -/
theorem mem_temporal {b : TemporalBin Binary32} : b ∈ (job.temporal n observations).flatten ↔
    ∃ i,job.scheme.touching ((List.range n).map observations) i ≠ [] ∧
      job.scheme.merged ((List.range n).map observations) i = b := by
  obtain ⟨cells,_,members,eq⟩ := job.temporalPass_flatten (job.sources n observations)
  rw [temporal,eq,List.mem_map]
  simp only [members,withKey_sources,Scheme.merged,ne_eq,List.map_eq_nil_iff]

/-- The first pass gives the merged bins of all cells, each once. -/
theorem temporal_perm : (job.temporal n observations).flatten.Perm
    ((job.scheme.cells ((List.range n).map observations).flatten).map
      (job.scheme.merged ((List.range n).map observations))) := by
  obtain ⟨cells,nodup,members,eq⟩ := job.temporalPass_flatten (job.sources n observations)
  simp only [withKey_sources,ne_eq,List.map_eq_nil_iff] at members eq
  rw [temporal,eq]
  refine List.Perm.map _ ((List.perm_ext_iff_of_nodup nodup (Scheme.cells_nodup _)).mpr ?_)
  intro i
  rw [members,← Scheme.touching_ne_nil,ne_eq]

/-- The copies of the merged bins, by cells and in them by regions. -/
theorem copies_temporal_perm :
    let inputs := (List.range n).map observations
    (job.copies (job.temporal n observations)).Perm ((job.scheme.cells inputs.flatten).flatMap
      fun i => (Region.takers job.scheme.grid job.regions i).map fun r =>
        RegionBin.of (Int32.ofNat r) (job.scheme.merged inputs i)) := by
  intro inputs
  refine ((job.temporal_perm n observations).flatMap fun _ _ => .refl _).trans (.of_eq ?_)
  rw [List.flatMap_map]
  refine List.flatMap_congr fun i _ => ?_
  rw [Region.fanOut_eq_takers,Scheme.merged_index]

/-- What is known of the job of the survey: its cells, how often they were observed, in how many
partitions, and which regions take them. -/
structure Surveyed (job : Job) : Prop where
  made : makeWith Grid.fourRows "survey" .survey = .ok job
  bins : job.scheme.grid.bins = 20
  spatial : job.scheme.ensemble.spatialCount = 3
  temporal : job.scheme.ensemble.temporalCount = 4
  cells : job.scheme.cells Settings.surveys.flatten = [13,6,8]
  accepted : [13,6,8].map (job.scheme.acceptedIn Settings.surveys) = [1,3,1]
  touching : [13,6,8].map (fun i => (job.scheme.touching Settings.surveys i).length) = [1,2,1]
  takers : [13,6,8].map (Region.takers job.scheme.grid job.regions) = [[0,2],[0,1,2],[1]]
  refused : Settings.surveys.map (fun os => (os.filter fun o => !job.scheme.admits o).length) = [1,0,1]
  partitions : Settings.surveys.map (fun os => (job.scheme.cells os).length) = [2,0,2]

theorem surveyed : ∃ job,Surveyed job := by
  have known : ∃ job ∈ (makeWith Grid.fourRows "survey" .survey).toOption,
      job.scheme.grid.bins = 20 ∧ job.scheme.ensemble.spatialCount = 3 ∧
        job.scheme.ensemble.temporalCount = 4 ∧
        job.scheme.cells Settings.surveys.flatten = [13,6,8] ∧
        [13,6,8].map (job.scheme.acceptedIn Settings.surveys) = [1,3,1] ∧
        [13,6,8].map (fun i => (job.scheme.touching Settings.surveys i).length) = [1,2,1] ∧
        [13,6,8].map (Region.takers job.scheme.grid job.regions) = [[0,2],[0,1,2],[1]] ∧
        Settings.surveys.map (fun os => (os.filter fun o => !job.scheme.admits o).length) =
          [1,0,1] ∧
        Settings.surveys.map (fun os => (job.scheme.cells os).length) = [2,0,2] := by
    decide +kernel
  obtain ⟨job,made,bins,spatial,temporal,cells,accepted,touching,takers,refused,partitions⟩ := known
  refine ⟨job,?_,bins,spatial,temporal,cells,accepted,touching,takers,refused,partitions⟩
  cases result : makeWith Grid.fourRows "survey" .survey with
  | error f =>
    rw [result] at made
    cases made
  | ok other =>
    rw [result] at made
    cases made
    rfl

/-- An order that the partitions of the survey may be taken in. -/
def surveyOrder : List (Nat × String) := [(2,"c"),(0,"a"),(1,"b")]

theorem surveyOrder_perm : surveyOrder.Perm (numbered ["a","b","c"]) := by decide

/-- What the partition with a number holds. -/
def surveyPart (i : Nat) : List Observation := Settings.surveyed (["a","b","c"].getD i "")

theorem surveyParts : (List.range ["a","b","c"].length).map surveyPart = Settings.surveys := rfl

theorem survey_accepted (c : Scheme) : c.accepted Settings.surveys < 2^31 :=
  Nat.lt_of_le_of_lt Scheme.accepted_le (by decide +kernel)

namespace Surveyed

variable {job : Job} (h : Surveyed job)

include h

theorem narrow :
    job.scheme.ensemble.spatialCount < 2^31 ∧ job.scheme.ensemble.temporalCount < 2^31 := by
  rw [h.spatial,h.temporal]
  decide

theorem takers_eq :
    let takers := Region.takers job.scheme.grid job.regions
    takers 13 = [0,2] ∧ takers 6 = [0,1,2] ∧ takers 8 = [1] := by
  have takers := h.takers
  simp only [List.map_cons,List.map_nil,List.cons.injEq,and_true] at takers
  exact takers

/-- The copies that the regions get in the survey. -/
theorem copies_perm :
    (job.copies (job.temporal 3 surveyPart)).Perm ([(0,13),(2,13),(0,6),(1,6),(2,6),(1,8)].map
      fun p => RegionBin.of (Int32.ofNat p.1) (job.scheme.merged Settings.surveys p.2)) := by
  obtain ⟨first,second,third⟩ := h.takers_eq
  have perm := job.copies_temporal_perm 3 surveyPart
  have inputs : (List.range 3).map surveyPart = Settings.surveys := surveyParts
  simp only [inputs,h.cells,List.flatMap_cons,List.flatMap_nil,first,second,third] at perm
  exact perm

end Surveyed

end Job

end GlobeBins

import GlobeBins.Proofs.Guarded.Bins

namespace GlobeBins

namespace Ensemble

variable (e : Ensemble)

/-- The samples of one cell in a partition, folded in their order. -/
def gathered (index : Int64) (samples : List (List Binary32)) : SpatialBin Binary32 :=
  samples.foldl (fun b xs => e.addSamples xs b) (e.newSpatial index)

/-- The finished bin of these samples. -/
def binned (index : Int64) (samples : List (List Binary32)) : SpatialBin Binary32 :=
  e.finishSpatial (e.gathered index samples)

/-- Finished bins on their way to a merged one. -/
def merging (index : Int64) (cells : List (SpatialBin Binary32)) : TemporalBin Binary32 :=
  cells.foldl (fun b c => e.addCell c b) (e.newTemporal index)

/-- The merged bin of a cell, given its samples in each partition. -/
def lived (index : Int64) (partitions : List (List (List Binary32))) : TemporalBin Binary32 :=
  e.merge index (partitions.map (e.binned index))

/-- There are samples for all that the statistics read. -/
def Supplied (samples : List (List Binary32)) : Prop :=
  ∀ xs ∈ samples,∀ s ∈ e.statistics,∀ i ∈ s.reads,i < xs.length

end Ensemble

namespace Guarded

variable (e : Ensemble)

def gathered (index : Int64) (samples : List (List Binary32)) :
    Except Stop (SpatialBin Binary32) := do
  samples.foldlM (fun b xs => addObservation e xs b) (← newSpatial e index)

def binned (index : Int64) (samples : List (List Binary32)) :
    Except Stop (SpatialBin Binary32) := do
  finishBin e (← gathered e index samples)

def lived (index : Int64) (partitions : List (List (List Binary32))) :
    Except Stop (TemporalBin Binary32) := do
  merge e index (← partitions.mapM (binned e index))

variable {e}

theorem foldlM_addObservation {samples : List (List Binary32)} (supplied : e.Supplied samples)
    {b : SpatialBin Binary32} {n : Nat} (width : b.features.length = e.spatialCount)
    (count : b.observations = Int32.ofNat n) (low : n+samples.length < 2^31) :
    samples.foldlM (fun b xs => addObservation e xs b) b =
      .ok (samples.foldl (fun b xs => e.addSamples xs b) b) := by
  induction samples generalizing b n with
  | nil => rfl
  | cons xs samples ih =>
    rw [List.length_cons] at low
    have step : addObservation e xs b = .ok (e.addSamples xs b) :=
      addObservation_eq (supplied xs List.mem_cons_self) width count (by omega)
    have next : (e.addSamples xs b).observations = Int32.ofNat (n+1) := by
      rw [Int32.ofNat_add,← count]
      rfl
    have rest : e.Supplied samples := fun ys hs => supplied ys (List.mem_cons_of_mem _ hs)
    rw [List.foldlM_cons,step,ok_bind]
    exact ih rest ((e.addSamples_length xs b).trans width) next (by omega)

end Guarded

namespace Ensemble

variable (e : Ensemble)

/-- A bin in this life has the width of all statistics and counts what was folded into it. -/
theorem gathered_spec (index : Int64) (samples : List (List Binary32)) :
    (e.gathered index samples).index = index ∧
    (e.gathered index samples).observations = Int32.ofNat samples.length ∧
    (e.gathered index samples).features.length = e.spatialCount := by
  have folded := foldl_addSamples e samples (e.newSpatial index)
  exact ⟨folded.1,folded.2.1.trans (Int32.zero_add _),
    folded.2.2.trans (e.newSpatial_length index)⟩

theorem mergeable (index : Int64) (partitions : List (List (List Binary32))) :
    Guarded.Mergeable e (partitions.map List.length) (partitions.map (e.binned index)) := by
  rw [Guarded.Mergeable,List.forall₂_map_left_iff,List.forall₂_map_right_iff,List.forall₂_same]
  intro samples _
  obtain ⟨_,count,width⟩ := e.gathered_spec index samples
  exact ⟨(e.finishSpatial_length _).trans width,count⟩

/-- Every step of the life of a bin has its result. -/
structure Steps : Prop where
  binned : ∀ index samples,e.Supplied samples → samples.length < 2^31 →
    Guarded.binned e index samples = .ok (e.binned index samples)
  lived : ∀ index partitions,(∀ samples ∈ partitions,e.Supplied samples) →
    (partitions.map List.length).sum < 2^31 → partitions.length < 2^31 →
    Guarded.lived e index partitions = .ok (e.lived index partitions)
  output : ∀ b out,b.features.length = e.temporalCount → out.length = e.outputCount →
    Guarded.writeOutput e b out = .ok (e.writeOutput b out)

theorem binned_steps (index : Int64) {samples : List (List Binary32)}
    (supplied : e.Supplied samples) (few : samples.length < 2^31) :
    Guarded.binned e index samples = .ok (e.binned index samples) := by
  have folded := Guarded.foldlM_addObservation supplied (b := e.newSpatial index) (n := 0)
    (e.newSpatial_length index) rfl (by omega)
  rw [Guarded.binned,Guarded.gathered,Guarded.newSpatial_eq,ok_bind,folded,ok_bind]
  exact Guarded.finishBin_eq (e.gathered_spec index samples).2.2

theorem steps : e.Steps where
  binned index _ := e.binned_steps index
  lived index partitions supplied low few := by
    have each : ∀ samples ∈ partitions,
        Guarded.binned e index samples = .ok (e.binned index samples) := by
      intro samples mem
      have least := List.le_sum_of_mem (List.mem_map_of_mem (f := List.length) mem)
      exact e.binned_steps index (supplied samples mem) (by omega)
    rw [Guarded.lived,mapM_ok each,ok_bind]
    exact Guarded.merge_eq index (e.mergeable index partitions) low (by rwa [List.length_map])
  output _ _ := Guarded.writeOutput_eq

end Ensemble

end GlobeBins

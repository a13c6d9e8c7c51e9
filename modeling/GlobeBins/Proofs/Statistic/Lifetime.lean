import GlobeBins.Proofs.Ensemble.Apart
import GlobeBins.Proofs.Job.Cells
import GlobeBins.Proofs.SpatialPass.Reference

namespace GlobeBins

namespace Statistic

variable (s : Statistic)

/-- One more partition is merged. -/
def addPartition (v : List Binary32) (samples : List (List Binary32)) : List Binary32 :=
  s.addCell (s.summary samples) samples.length v

/-- What the samples of some partitions come to. -/
def lived (partitions : List (List (List Binary32))) : List Binary32 :=
  s.finishTemporal (partitions.foldl s.addPartition s.neutralTemporal)

theorem lived_nil : s.lived [] = s.neutralTemporal := rfl

theorem lived_append (partitions : List (List (List Binary32))) (samples : List (List Binary32)) :
    s.lived (partitions++[samples]) = s.addPartition (s.lived partitions) samples := by
  simp only [lived,finishTemporal,List.foldl_append,List.foldl_cons,List.foldl_nil]

theorem summary_length (samples : List (List Binary32)) :
    (s.summary samples).length = s.spatialWidth := by
  rw [summary,finishSpatial_length,folded_length]

theorem lived_length (partitions : List (List (List Binary32))) :
    (s.lived partitions).length = s.temporalWidth := by
  induction partitions using List.reverseRecOn with
  | nil => exact s.neutralTemporal_length
  | append_singleton partitions samples ih => rw [lived_append,addPartition,addCell_length,ih]

end Statistic

namespace Ensemble

variable (e : Ensemble)

/-- The merged vector has the vectors of the statistics one after another. -/
theorem lived_features (index : Int64) {partitions : List (List (List Binary32))}
    (few : ∀ samples ∈ partitions,samples.length < 2^31) :
    (e.lived index partitions).features = e.statistics.flatMap fun s => s.lived partitions := by
  have merging : (e.merging index (partitions.map (e.binned index))).features =
      e.statistics.flatMap fun s => s.lived partitions := by
    induction partitions using List.reverseRecOn with
    | nil => exact e.resetTemporal_eq List.length_replicate
    | append_singleton partitions samples ih =>
      have low : samples.length < 2^31 := few samples (by simp)
      have count : (e.binned index samples).observations.toInt = samples.length := by
        have own : (e.binned index samples).observations = Int32.ofNat samples.length :=
          (e.gathered_spec index samples).2.1
        rw [own,Int32.toInt_ofNat_of_lt low]
      have step : (e.merging index ((partitions++[samples]).map (e.binned index))).features =
          onSlicePairs Statistic.spatialWidth Statistic.temporalWidth
            (fun s cell v => s.addCell cell (e.binned index samples).observations.toInt v)
            e.statistics (e.binned index samples).features
            (e.merging index (partitions.map (e.binned index))).features := by
        rw [Ensemble.merging,List.map_append,List.foldl_append,← Ensemble.merging]
        rfl
      rw [step,count,ih fun ys hs => few ys (by simp [hs]),e.binned_features index low,
        onSlicePairs_flatMap (fun s => s.summary_length samples) fun s => s.lived_length partitions]
      simp only [Statistic.lived_append,Statistic.addPartition]
  have finished : (e.lived index partitions).features = onSlices Statistic.temporalWidth
      (fun s v => s.finishTemporal v) e.statistics
        (e.merging index (partitions.map (e.binned index))).features := rfl
  rw [finished,merging,onSlices_flatMap fun s => s.lived_length partitions]
  rfl

variable {e} {k : Nat} {s : Statistic} {p : Place} {index : Int64}
  {partitions : List (List (List Binary32))}

/-- In any ensemble a statistic has its own vector. -/
theorem At.lived_slice (here : e.At k s p) (few : ∀ samples ∈ partitions,samples.length < 2^31) :
    p.temporal.of (e.lived index partitions).features = s.lived partitions := by
  have own := (here.lived index partitions).features
  rw [s.alone.lived_features index few] at own
  rw [← own]
  exact List.flatMap_singleton _ _

/-- And writes its own output. -/
theorem At.lived_output (here : e.At k s p) (few : ∀ samples ∈ partitions,samples.length < 2^31)
    {out : List Binary32} (room : out.length = e.outputCount) :
    p.output.of (e.writeOutput (e.lived index partitions) out) = s.output (s.lived partitions) := by
  rw [here.output_of (here.lived index partitions).width room,here.lived_slice few]

end Ensemble

namespace Scheme

variable {c : Scheme} {partitions : List (List Observation)} {i : Int64}

/-- Samples of a cell in each partition that touches it. -/
def samplesIn (c : Scheme) (partitions : List (List Observation)) (i : Int64) :
    List (List (List Binary32)) :=
  (c.touching partitions i).map fun os => (c.inCell os i).map Observation.samples

theorem merged_eq_lived : c.merged partitions i = c.ensemble.lived i (c.samplesIn partitions i) := by
  rw [merged,samplesIn,Ensemble.lived,List.map_map]
  congr 1
  exact List.map_congr_left fun os _ => SpatialPass.cell_eq_binned os i

theorem sum_samplesIn :
    ((c.samplesIn partitions i).map List.length).sum = c.acceptedIn partitions i := by
  rw [← acceptedIn_touching,acceptedIn,samplesIn,List.map_map]
  simp only [Function.comp_def,List.length_map]

end Scheme

end GlobeBins

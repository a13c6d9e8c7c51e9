import GlobeBins.Proofs.Ensemble.Lifetime
import GlobeBins.Proofs.Ensemble.Tables

namespace GlobeBins

namespace Ensemble

variable (e : Ensemble)

/-- Bins of all statistics and bins of one of them have met the same, and agree in its slice. -/
structure SpatialPart (s : Statistic) (r : Span) (b own : SpatialBin Binary32) : Prop where
  width : b.features.length = e.spatialCount
  ownWidth : own.features.length = s.spatialWidth
  index : own.index = b.index
  observations : own.observations = b.observations
  features : own.features = r.of b.features

/-- As `SpatialPart`, for merged bins. -/
structure TemporalPart (s : Statistic) (r : Span) (b own : TemporalBin Binary32) : Prop where
  width : b.features.length = e.temporalCount
  ownWidth : own.features.length = s.temporalWidth
  index : own.index = b.index
  observations : own.observations = b.observations
  passes : own.passes = b.passes
  features : own.features = r.of b.features

/-- As `SpatialPart`, for outputs. -/
structure OutputPart (s : Statistic) (r : Span) (out own : List Binary32) : Prop where
  width : out.length = e.outputCount
  ownWidth : own.length = s.outputWidth
  output : own = r.of out

variable {e}

/-- Where the vectors of a bin have a statistic. -/
structure Place where
  spatial : Span
  temporal : Span
  output : Span

/-- The tables give a statistic this place. -/
structure At (e : Ensemble) (k : Nat) (s : Statistic) (p : Place) : Prop where
  statistic : e.statistics[k]? = some s
  spatial : (e.spans Statistic.spatialNames)[k]? = some p.spatial
  temporal : (e.spans Statistic.temporalNames)[k]? = some p.temporal
  output : (e.spans Statistic.outputNames)[k]? = some p.output

/-- A statistic has the same of bins that it shares and of bins of its own. -/
structure Follows (e : Ensemble) (s : Statistic) (p : Place) : Prop where
  gathered : ∀ index samples,
    e.SpatialPart s p.spatial (e.gathered index samples) (s.alone.gathered index samples)
  binned : ∀ index samples,
    e.SpatialPart s p.spatial (e.binned index samples) (s.alone.binned index samples)
  merging : ∀ index cells own,List.Forall₂ (e.SpatialPart s p.spatial) cells own →
    e.TemporalPart s p.temporal (e.merging index cells) (s.alone.merging index own)
  merge : ∀ index cells own,List.Forall₂ (e.SpatialPart s p.spatial) cells own →
    e.TemporalPart s p.temporal (e.merge index cells) (s.alone.merge index own)
  lived : ∀ index partitions,
    e.TemporalPart s p.temporal (e.lived index partitions) (s.alone.lived index partitions)
  output : ∀ b own,e.TemporalPart s p.temporal b own → ∀ out ownOut,
    out.length = e.outputCount → ownOut.length = s.outputWidth →
    e.OutputPart s p.output (e.writeOutput b out) (s.alone.writeOutput own ownOut)

section

variable {k : Nat} {s : Statistic} {p : Place}

theorem at_of_getElem? (h : e.statistics[k]? = some s) : ∃ p,e.At k s p := by
  have span (names : Statistic → List String) : ∃ r,(e.spans names)[k]? = some r := by
    have inside := (List.getElem?_eq_some_iff.mp h).1
    have length : (e.spans names).length = e.statistics.length := by
      rw [spans,Span.layout_eq,Span.row_length,List.length_map,List.length_map]
    rw [← length] at inside
    exact ⟨_,List.getElem?_eq_getElem inside⟩
  obtain ⟨spatial,at_spatial⟩ := span Statistic.spatialNames
  obtain ⟨temporal,at_temporal⟩ := span Statistic.temporalNames
  obtain ⟨output,at_output⟩ := span Statistic.outputNames
  exact ⟨⟨spatial,temporal,output⟩,h,at_spatial,at_temporal,at_output⟩

namespace At

variable (here : e.At k s p)

include here

theorem newSpatial (index : Int64) :
    e.SpatialPart s p.spatial (e.newSpatial index) (s.alone.newSpatial index) := by
  have room : (List.replicate e.spatialCount (0 : Binary32)).length = e.spatialCount :=
    List.length_replicate
  have slice := of_length Statistic.spatialNames_length room here.statistic here.spatial
  have reset : (s.alone.newSpatial index).features =
      s.alone.resetSpatial (p.spatial.of (List.replicate e.spatialCount 0)) := by
    rw [Ensemble.newSpatial,resetSpatial_eq _ List.length_replicate,resetSpatial_eq _ slice]
  have shared := onSlices_slice Statistic.spatialNames_length room
    (fun s _ => overwrite_keeps s.neutralSpatial_length) here.statistic here.spatial
  exact ⟨e.newSpatial_length index,s.alone.newSpatial_length index,rfl,rfl,reset.trans shared⟩

theorem addSamples (samples : List Binary32) {b own : SpatialBin Binary32}
    (h : e.SpatialPart s p.spatial b own) :
    e.SpatialPart s p.spatial (e.addSamples samples b) (s.alone.addSamples samples own) := by
  have shared := onSlices_slice Statistic.spatialNames_length h.width
    (fun s v h => (s.addSamples_length samples v).trans h) here.statistic here.spatial
  rw [← h.features] at shared
  constructor
  case width => exact (e.addSamples_length samples b).trans h.width
  case ownWidth => exact (s.alone.addSamples_length samples own).trans h.ownWidth
  case index => exact h.index
  case observations => exact congrArg (·+1) h.observations
  case features => exact shared

theorem finishSpatial {b own : SpatialBin Binary32} (h : e.SpatialPart s p.spatial b own) :
    e.SpatialPart s p.spatial (e.finishSpatial b) (s.alone.finishSpatial own) := by
  have shared := onSlices_slice Statistic.spatialNames_length h.width
    (fun s v h => (s.finishSpatial_length b.observations.toInt v).trans h) here.statistic
    here.spatial
  rw [← h.features] at shared
  constructor
  case width => exact (e.finishSpatial_length b).trans h.width
  case ownWidth => exact (s.alone.finishSpatial_length own).trans h.ownWidth
  case index => exact h.index
  case observations => exact h.observations
  case features =>
    rw [Ensemble.finishSpatial,h.observations]
    exact shared

theorem newTemporal (index : Int64) :
    e.TemporalPart s p.temporal (e.newTemporal index) (s.alone.newTemporal index) := by
  have room : (List.replicate e.temporalCount (0 : Binary32)).length = e.temporalCount :=
    List.length_replicate
  have slice := of_length Statistic.temporalNames_length room here.statistic here.temporal
  have reset : (s.alone.newTemporal index).features =
      s.alone.resetTemporal (p.temporal.of (List.replicate e.temporalCount 0)) := by
    rw [Ensemble.newTemporal,resetTemporal_eq _ List.length_replicate,resetTemporal_eq _ slice]
  have shared := onSlices_slice Statistic.temporalNames_length room
    (fun s _ => overwrite_keeps s.neutralTemporal_length) here.statistic here.temporal
  exact ⟨e.newTemporal_length index,s.alone.newTemporal_length index,rfl,rfl,rfl,
    reset.trans shared⟩

theorem addCell {c ownCell : SpatialBin Binary32} (cell : e.SpatialPart s p.spatial c ownCell)
    {b own : TemporalBin Binary32} (h : e.TemporalPart s p.temporal b own) :
    e.TemporalPart s p.temporal (e.addCell c b) (s.alone.addCell ownCell own) := by
  have shared := onSlicePairs_slice Statistic.temporalNames_length h.width
    Statistic.spatialNames_length cell.width
    (fun s r v _ h => (s.addCell_length r c.observations.toInt v).trans h) here.statistic
    here.spatial here.temporal
  rw [← h.features,← cell.features] at shared
  constructor
  case width => exact (e.addCell_length c b).trans h.width
  case ownWidth => exact (s.alone.addCell_length ownCell own).trans h.ownWidth
  case index => exact h.index
  case observations => exact congrArg₂ (·+·) h.observations cell.observations
  case passes => exact congrArg (·+1) h.passes
  case features =>
    rw [Ensemble.addCell,cell.observations]
    exact shared

theorem finishTemporal {b own : TemporalBin Binary32} (h : e.TemporalPart s p.temporal b own) :
    e.TemporalPart s p.temporal (e.finishTemporal b) (s.alone.finishTemporal own) := by
  have shared := onSlices_slice Statistic.temporalNames_length h.width
    (f := fun s v => s.finishTemporal v) (fun _ _ h => h) here.statistic here.temporal
  rw [← h.features] at shared
  constructor
  case width => exact (e.finishTemporal_length b).trans h.width
  case ownWidth => exact (s.alone.finishTemporal_length own).trans h.ownWidth
  case index => exact h.index
  case observations => exact h.observations
  case passes => exact h.passes
  case features => exact shared

theorem writeOutput {b own : TemporalBin Binary32} (h : e.TemporalPart s p.temporal b own)
    {out ownOut : List Binary32} (room : out.length = e.outputCount)
    (ownRoom : ownOut.length = s.outputWidth) :
    e.OutputPart s p.output (e.writeOutput b out) (s.alone.writeOutput own ownOut) := by
  have slice := of_length Statistic.outputNames_length room here.statistic here.output
  have shared := onSlicePairs_slice Statistic.outputNames_length room
    Statistic.temporalNames_length h.width (f := fun s v => overwrite (s.output v))
    (fun s _ _ h => overwrite_keeps (s.output_length h)) here.statistic here.temporal here.output
  rw [← h.features] at shared
  -- Nothing is left of the vectors written over, so they need not agree.
  have written : s.alone.writeOutput own ownOut = s.alone.writeOutput own (p.output.of out) := by
    rw [s.alone.writeOutput_eq h.ownWidth ownRoom,s.alone.writeOutput_eq h.ownWidth slice]
  constructor
  case width => rw [e.writeOutput_eq h.width room,outputs_length h.width,outputCount]
  case ownWidth =>
    rw [s.alone.writeOutput_eq h.ownWidth ownRoom]
    exact outputs_length h.ownWidth
  case output => exact written.trans shared

/-- Where a statistic writes there is what it makes of its slice. -/
theorem output_of {b : TemporalBin Binary32} (wide : b.features.length = e.temporalCount)
    {out : List Binary32} (room : out.length = e.outputCount) :
    p.output.of (e.writeOutput b out) = s.output (p.temporal.of b.features) := by
  have slice : (p.temporal.of b.features).length = s.temporalWidth :=
    of_length Statistic.temporalNames_length wide here.statistic here.temporal
  have ownRoom : (List.replicate s.outputWidth (0 : Binary32)).length = s.outputWidth :=
    List.length_replicate
  have part : e.TemporalPart s p.temporal b {b with features := p.temporal.of b.features} :=
    ⟨wide,slice,rfl,rfl,rfl,rfl⟩
  have whole : (p.temporal.of b.features).take s.temporalWidth = p.temporal.of b.features :=
    List.take_of_length_le slice.le
  rw [← (here.writeOutput part room ownRoom).output,s.alone.writeOutput_eq part.ownWidth ownRoom]
  simp [Statistic.alone,outputs,whole]

theorem gathered (index : Int64) (samples : List (List Binary32)) :
    e.SpatialPart s p.spatial (e.gathered index samples) (s.alone.gathered index samples) := by
  have folded : ∀ b own,e.SpatialPart s p.spatial b own → e.SpatialPart s p.spatial
      (samples.foldl (fun b xs => e.addSamples xs b) b)
      (samples.foldl (fun b xs => s.alone.addSamples xs b) own) := by
    induction samples with
    | nil => exact fun _ _ h => h
    | cons xs samples ih => exact fun b own h => ih _ _ (here.addSamples xs h)
  exact folded _ _ (here.newSpatial index)

theorem merging (index : Int64) {cells own : List (SpatialBin Binary32)}
    (h : List.Forall₂ (e.SpatialPart s p.spatial) cells own) :
    e.TemporalPart s p.temporal (e.merging index cells) (s.alone.merging index own) := by
  have folded : ∀ b ownBin,e.TemporalPart s p.temporal b ownBin → e.TemporalPart s p.temporal
      (cells.foldl (fun b c => e.addCell c b) b)
      (own.foldl (fun b c => s.alone.addCell c b) ownBin) := by
    induction h with
    | nil => exact fun _ _ h => h
    | cons cell _ ih => exact fun b ownBin h => ih _ _ (here.addCell cell h)
  exact folded _ _ (here.newTemporal index)

theorem binned (index : Int64) (samples : List (List Binary32)) :
    e.SpatialPart s p.spatial (e.binned index samples) (s.alone.binned index samples) :=
  here.finishSpatial (here.gathered index samples)

theorem merge (index : Int64) {cells own : List (SpatialBin Binary32)}
    (h : List.Forall₂ (e.SpatialPart s p.spatial) cells own) :
    e.TemporalPart s p.temporal (e.merge index cells) (s.alone.merge index own) :=
  here.finishTemporal (here.merging index h)

theorem lived (index : Int64) (partitions : List (List (List Binary32))) :
    e.TemporalPart s p.temporal (e.lived index partitions) (s.alone.lived index partitions) := by
  refine here.merge index ?_
  rw [List.forall₂_map_left_iff,List.forall₂_map_right_iff,List.forall₂_same]
  exact fun samples _ => here.binned index samples

theorem follows : e.Follows s p where
  gathered := here.gathered
  binned := here.binned
  merging index _ _ := here.merging index
  merge index _ _ := here.merge index
  lived := here.lived
  output _ _ h _ _ room ownRoom := here.writeOutput h room ownRoom

end At

end

end Ensemble

/-- Three tables divide the vectors of a bin among its statistics, every operation works through them,
and each statistic has the same of the bin as it has of a bin of its own. -/
theorem statistics_apart (e : Ensemble) :
    e.Tiles Statistic.spatialNames e.spatialCount ∧
    e.Tiles Statistic.temporalNames e.temporalCount ∧
    e.Tiles Statistic.outputNames e.outputCount ∧
    e.InPlace ∧ e.Steps ∧
    ∀ k s,e.statistics[k]? = some s → ∃ p,e.At k s p ∧ e.Follows s p := by
  refine ⟨Ensemble.tiles Statistic.spatialNames_length,Ensemble.tiles Statistic.temporalNames_length,
    Ensemble.tiles Statistic.outputNames_length,e.inPlace,e.steps,?_⟩
  intro k s h
  obtain ⟨p,here⟩ := Ensemble.at_of_getElem? h
  exact ⟨p,here,here.follows⟩

/-- A statistic behind one whose spatial and temporal vectors are of different widths. -/
theorem statistics_apart_behind : ∃ e : Ensemble,
    e.statistics = [.total ⟨"a",0⟩,.extremes ⟨"b",1,0⟩] ∧
    e.At 1 (.extremes ⟨"b",1,0⟩) ⟨⟨1,3⟩,⟨2,4⟩,⟨2,4⟩⟩ ∧
    Guarded.lived e 7 [[[1,0],[0,1]],[[1,1]]] = .ok (e.lived 7 [[[1,0],[0,1]],[[1,1]]]) ∧
    ((Statistic.extremes ⟨"b",1,0⟩).alone.lived 7 [[[1,0],[0,1]],[[1,1]]]).features =
      Span.of ⟨2,4⟩ (e.lived 7 [[[1,0],[0,1]],[[1,1]]]).features := by
  have at_one : (⟨[.total ⟨"a",0⟩,.extremes ⟨"b",1,0⟩]⟩ : Ensemble).statistics[1]? =
      some (.extremes ⟨"b",1,0⟩) := rfl
  obtain ⟨_,_,_,_,steps,parts⟩ := statistics_apart ⟨[.total ⟨"a",0⟩,.extremes ⟨"b",1,0⟩]⟩
  obtain ⟨⟨spatial,temporal,output⟩,here,follows⟩ := parts 1 _ at_one
  have same : spatial = ⟨1,3⟩ ∧ temporal = ⟨2,4⟩ ∧ output = ⟨2,4⟩ :=
    ⟨(Option.some.inj here.spatial).symm,(Option.some.inj here.temporal).symm,
      (Option.some.inj here.output).symm⟩
  obtain ⟨rfl,rfl,rfl⟩ := same
  have supplied := steps.lived 7 [[[1,0],[0,1]],[[1,1]]]
    (by simp [Ensemble.Supplied,Statistic.reads]) (by decide) (by decide)
  exact ⟨_,rfl,here,supplied,(follows.lived 7 [[[1,0],[0,1]],[[1,1]]]).features⟩

end GlobeBins

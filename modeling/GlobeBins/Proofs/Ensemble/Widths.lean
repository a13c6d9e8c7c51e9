import Mathlib
import GlobeBins.Ensemble

namespace GlobeBins

section

variable {α : Type} [Arithmetic α]

theorem Average.addSample_length (x : α) (v : List α) : (Average.addSample x v).length = v.length := by
  unfold Average.addSample
  split <;> rfl

theorem Average.divideByCount_length (count : Int) (v : List α) :
    (Average.divideByCount count v).length = v.length := by
  unfold Average.divideByCount
  split
  · simp only
    split <;> rfl
  · rfl

theorem Average.addCell_length (w : α) (cell v : List α) :
    (Average.addCell w cell v).length = v.length := by
  unfold Average.addCell
  split
  · split <;> rfl
  · rfl

theorem LogAverage.addSample_length (x : α) (v : List α) :
    (LogAverage.addSample x v).length = v.length := by
  unfold LogAverage.addSample
  split <;> rfl

theorem LogAverage.divideByRoot_length (count : Int) (v : List α) :
    (LogAverage.divideByRoot count v).length = v.length := by
  unfold LogAverage.divideByRoot
  split
  · simp only
    split <;> rfl
  · rfl

theorem LogAverage.addCell_length (cell : List α) (count : Int) (v : List α) :
    (LogAverage.addCell cell count v).length = v.length := by
  unfold LogAverage.addCell
  split
  · split <;> rfl
  · rfl

end

theorem Extremes.widen_length (least greatest : Binary32) (v : List Binary32) :
    (Extremes.widen least greatest v).length = v.length := by
  unfold Extremes.widen
  split <;> rfl

theorem Extremes.addCell_length (cell v : List Binary32) :
    (Extremes.addCell cell v).length = v.length := by
  unfold Extremes.addCell
  split
  · exact widen_length _ _ _
  · rfl

theorem Total.addSample_length (x : Binary32) (v : List Binary32) :
    (Total.addSample x v).length = v.length := by
  unfold Total.addSample
  split <;> rfl

theorem Total.addCell_length (cell : List Binary32) (count : Int) (v : List Binary32) :
    (Total.addCell cell count v).length = v.length := by
  unfold Total.addCell
  split
  · split <;> rfl
  · rfl

theorem BurnedDay.addSample_length (b : BurnedDay) (samples v : List Binary32) :
    (b.addSample samples v).length = v.length := by
  unfold BurnedDay.addSample
  repeat' split
  all_goals first | rfl | exact fold_length _ _ _ _

theorem BurnedDay.addCell_length (b : BurnedDay) (cell v : List Binary32) :
    (b.addCell cell v).length = v.length := by
  unfold BurnedDay.addCell
  split
  · exact fold_length _ _ _ _
  · rfl

theorem LandCover.addSample_length (classes : Nat) (x : Binary32) (v : List Binary32) :
    (LandCover.addSample classes x v).length = v.length := by
  unfold LandCover.addSample
  split <;> simp

namespace Statistic

variable (s : Statistic)

theorem foldSample_length {f : Binary32 → List Binary32 → List Binary32}
    (keeps : ∀ x v,(f x v).length = v.length) (source : Nat) (samples v : List Binary32) :
    (foldSample source f samples v).length = v.length := by
  unfold foldSample
  split
  · exact keeps _ _
  · rfl

theorem addSamples_length (samples v : List Binary32) :
    (s.addSamples samples v).length = v.length := by
  cases s with
  | average s => exact foldSample_length Average.addSample_length _ _ _
  | logAverage s => exact foldSample_length LogAverage.addSample_length _ _ _
  | extremes s => exact foldSample_length (fun x => Extremes.widen_length x x) _ _ _
  | total s => exact foldSample_length Total.addSample_length _ _ _
  | burnedDay s => exact s.addSample_length _ _
  | landCover s => exact foldSample_length (LandCover.addSample_length s.classes) _ _ _

theorem finishSpatial_length (count : Int) (v : List Binary32) :
    (s.finishSpatial count v).length = v.length := by
  cases s with
  | average s => exact Average.divideByCount_length _ _
  | logAverage s => exact LogAverage.divideByRoot_length _ _
  | _ => rfl

theorem addCell_length (cell : List Binary32) (count : Int) (v : List Binary32) :
    (s.addCell cell count v).length = v.length := by
  cases s with
  | average s => exact Average.addCell_length _ _ _
  | logAverage s => exact LogAverage.addCell_length _ _ _
  | extremes s => exact Extremes.addCell_length _ _
  | total s => exact Total.addCell_length _ _ _
  | burnedDay s => exact s.addCell_length _ _
  | landCover s => exact LandCover.addCell_length _ _

theorem output_length {v : List Binary32} (h : v.length = s.temporalWidth) :
    (s.output v).length = s.outputWidth := by
  cases s with
  | average s => exact Average.output_length _ _
  | logAverage s => exact LogAverage.output_length _ _
  | extremes s => exact Extremes.output_length _ _
  | total s => simp [output,outputWidth,h,temporalWidth]
  | burnedDay s => simp [output,outputWidth,h,temporalWidth]
  | landCover s => simp [output,outputWidth,LandCover.output_length,h,temporalWidth]

end Statistic

namespace Ensemble

theorem onSlices_length {α : Type} {width : Statistic → Nat} {f : Statistic → List α → List α}
    (keeps : ∀ s v,(f s v).length = v.length) (ss : List Statistic) (v : List α) :
    (onSlices width f ss v).length = v.length := by
  induction ss generalizing v with
  | nil => rfl
  | cons s ss ih =>
    rw [onSlices,List.length_append,keeps,ih,← List.length_append,List.take_append_drop]

theorem onSlicePairs_length {α β : Type} {readWidth width : Statistic → Nat}
    {f : Statistic → List β → List α → List α} (keeps : ∀ s r v,(f s r v).length = v.length)
    (ss : List Statistic) (r : List β) (v : List α) :
    (onSlicePairs readWidth width f ss r v).length = v.length := by
  induction ss generalizing r v with
  | nil => rfl
  | cons s ss ih =>
    rw [onSlicePairs,List.length_append,keeps,ih,← List.length_append,List.take_append_drop]

theorem onSlices_unchanged {α : Type} (width : Statistic → Nat) (ss : List Statistic) (v : List α) :
    onSlices width (fun _ v => v) ss v = v := by
  induction ss generalizing v with
  | nil => rfl
  | cons s ss ih => rw [onSlices,ih,List.take_append_drop]

/-- Slices written over as a whole, one behind the other. -/
theorem onSlices_overwrite {α : Type} {width : Statistic → Nat} {front : Statistic → List α}
    (fits : ∀ s,(front s).length = width s) (ss : List Statistic) {v : List α}
    (h : v.length = (ss.map width).sum) :
    onSlices width (fun s => overwrite (front s)) ss v = ss.flatMap front := by
  induction ss generalizing v with
  | nil => exact List.length_eq_zero_iff.mp h
  | cons s ss ih =>
    simp only [List.map_cons,List.sum_cons] at h
    have slice : (v.take (width s)).length = (front s).length := by
      rw [List.length_take,fits]
      omega
    have rest : (v.drop (width s)).length = (ss.map width).sum := by
      rw [List.length_drop]
      omega
    rw [onSlices,overwrite_eq_front _ _ slice,ih rest,List.flatMap_cons]

/-- Slices that stand one behind the other are changed each by its own statistic. -/
theorem onSlices_flatMap {α : Type} {width : Statistic → Nat} {f : Statistic → List α → List α}
    {slice : Statistic → List α} (fits : ∀ s,(slice s).length = width s) (ss : List Statistic) :
    onSlices width f ss (ss.flatMap slice) = ss.flatMap fun s => f s (slice s) := by
  induction ss with
  | nil => rfl
  | cons s ss ih =>
    rw [onSlices,List.flatMap_cons,List.take_left' (fits s),List.drop_left' (fits s),ih,
      List.flatMap_cons]

/-- As `onSlices_flatMap`, with the slices of another vector. -/
theorem onSlicePairs_flatMap {α β : Type} {readWidth width : Statistic → Nat}
    {f : Statistic → List β → List α → List α} {read : Statistic → List β}
    {slice : Statistic → List α} (reads : ∀ s,(read s).length = readWidth s)
    (fits : ∀ s,(slice s).length = width s) (ss : List Statistic) :
    onSlicePairs readWidth width f ss (ss.flatMap read) (ss.flatMap slice) =
      ss.flatMap fun s => f s (read s) (slice s) := by
  induction ss with
  | nil => rfl
  | cons s ss ih =>
    rw [onSlicePairs,List.flatMap_cons,List.flatMap_cons,List.take_left' (reads s),
      List.drop_left' (reads s),List.take_left' (fits s),List.drop_left' (fits s),ih,
      List.flatMap_cons]

variable (e : Ensemble)

theorem resetSpatial_eq {v : List Binary32} (h : v.length = e.spatialCount) :
    e.resetSpatial v = e.statistics.flatMap Statistic.neutralSpatial :=
  onSlices_overwrite Statistic.neutralSpatial_length _ h

theorem resetTemporal_eq {v : List Binary32} (h : v.length = e.temporalCount) :
    e.resetTemporal v = e.statistics.flatMap Statistic.neutralTemporal :=
  onSlices_overwrite Statistic.neutralTemporal_length _ h

theorem newSpatial_length (index : Int64) :
    (e.newSpatial index).features.length = e.spatialCount := by
  rw [newSpatial,resetSpatial_eq _ List.length_replicate,List.length_flatMap,spatialCount]
  simp only [Statistic.neutralSpatial_length]

theorem newTemporal_length (index : Int64) :
    (e.newTemporal index).features.length = e.temporalCount := by
  rw [newTemporal,resetTemporal_eq _ List.length_replicate,List.length_flatMap,temporalCount]
  simp only [Statistic.neutralTemporal_length]

theorem addSamples_length (samples : List Binary32) (b : SpatialBin Binary32) :
    (e.addSamples samples b).features.length = b.features.length :=
  onSlices_length (fun s v => s.addSamples_length samples v) _ _

theorem finishSpatial_length (b : SpatialBin Binary32) :
    (e.finishSpatial b).features.length = b.features.length :=
  onSlices_length (fun s v => s.finishSpatial_length _ v) _ _

theorem addCell_length (c : SpatialBin Binary32) (b : TemporalBin Binary32) :
    (e.addCell c b).features.length = b.features.length :=
  onSlicePairs_length (fun s cell v => s.addCell_length cell _ v) _ _ _

/-- Every merged bin is final. -/
theorem finishTemporal_eq (b : TemporalBin Binary32) : e.finishTemporal b = b :=
  congrArg (TemporalBin.mk b.index b.observations b.passes) (onSlices_unchanged _ _ _)

theorem finishTemporal_length (b : TemporalBin Binary32) :
    (e.finishTemporal b).features.length = b.features.length := by
  rw [finishTemporal_eq]

theorem foldl_addSamples (samples : List (List Binary32)) (b : SpatialBin Binary32) :
    (samples.foldl (fun b xs => e.addSamples xs b) b).index = b.index ∧
    (samples.foldl (fun b xs => e.addSamples xs b) b).observations =
      b.observations+Int32.ofNat samples.length ∧
    (samples.foldl (fun b xs => e.addSamples xs b) b).features.length = b.features.length := by
  induction samples generalizing b with
  | nil => simp
  | cons xs samples ih =>
    obtain ⟨index,observations,features⟩ := ih (e.addSamples xs b)
    refine ⟨index,?_,features.trans (e.addSamples_length _ _)⟩
    rw [List.foldl_cons,observations,List.length_cons,Nat.add_comm,Int32.ofNat_add,
      ← Int32.add_assoc]
    rfl

/-- Each statistic's slice of a cell folded into its slice of a vector. -/
def foldCell (v : List Binary32) (c : SpatialBin Binary32) : List Binary32 :=
  onSlicePairs Statistic.spatialWidth Statistic.temporalWidth
    (fun s cell v => s.addCell cell c.observations.toInt v) e.statistics c.features v

/-- Counts of merged bins add up, every bin is a pass, and the vectors are folded in their order. -/
theorem foldl_addCell (cells : List (SpatialBin Binary32)) (b : TemporalBin Binary32) :
    (cells.foldl (fun b c => e.addCell c b) b).observations =
        b.observations+(cells.map SpatialBin.observations).sum ∧
      (cells.foldl (fun b c => e.addCell c b) b).passes = b.passes+Int32.ofNat cells.length ∧
      (cells.foldl (fun b c => e.addCell c b) b).features = cells.foldl e.foldCell b.features := by
  induction cells generalizing b with
  | nil => simp
  | cons c cs ih =>
    obtain ⟨observations,passes,features⟩ := ih (e.addCell c b)
    rw [List.foldl_cons,observations,passes,features]
    refine ⟨?_,?_,rfl⟩
    · rw [List.map_cons,List.sum_cons,← Int32.add_assoc]
      rfl
    · rw [List.length_cons,Nat.add_comm,Int32.ofNat_add,← Int32.add_assoc]
      rfl

/-- What the merge of bins leaves. -/
structure Merged (cells : List (SpatialBin Binary32)) (b : TemporalBin Binary32) : Prop where
  observations : b.observations = (cells.map SpatialBin.observations).sum
  passes : b.passes = Int32.ofNat cells.length
  features : b.features = cells.foldl e.foldCell (e.statistics.flatMap Statistic.neutralTemporal)

theorem merge_merged (index : Int64) (cells : List (SpatialBin Binary32)) :
    e.Merged cells (e.merge index cells) := by
  obtain ⟨observations,passes,features⟩ := e.foldl_addCell cells (e.newTemporal index)
  have neutral : (e.newTemporal index).features = e.statistics.flatMap Statistic.neutralTemporal :=
    e.resetTemporal_eq List.length_replicate
  rw [merge,finishTemporal_eq]
  rw [neutral] at features
  exact ⟨observations.trans (Int32.zero_add _),passes.trans (Int32.zero_add _),features⟩

/-- Whatever is merged, the vector has the width of all statistics. -/
theorem merge_length (index : Int64) (cells : List (SpatialBin Binary32)) :
    (e.merge index cells).features.length = e.temporalCount := by
  have folded : ∀ b : TemporalBin Binary32,
      (cells.foldl (fun b c => e.addCell c b) b).features.length = b.features.length := by
    induction cells with
    | nil =>
      intro b
      rfl
    | cons c cs ih =>
      intro b
      exact (ih (e.addCell c b)).trans (e.addCell_length c b)
  rw [merge,finishTemporal_length,folded,newTemporal_length]

theorem merge_index (index : Int64) (cells : List (SpatialBin Binary32)) :
    (e.merge index cells).index = index := by
  have folded : ∀ b : TemporalBin Binary32,
      (cells.foldl (fun b c => e.addCell c b) b).index = b.index := by
    induction cells with
    | nil =>
      intro b
      rfl
    | cons c cs ih =>
      intro b
      exact ih (e.addCell c b)
  exact folded (e.newTemporal index)

/-- Outputs of the statistics over their slices, one behind the other. -/
def outputs : List Statistic → List Binary32 → List Binary32
  | [],_ => []
  | s::ss,v => s.output (v.take s.temporalWidth)++outputs ss (v.drop s.temporalWidth)

theorem outputs_length {ss : List Statistic} {v : List Binary32}
    (h : v.length = (ss.map Statistic.temporalWidth).sum) :
    (outputs ss v).length = (ss.map Statistic.outputWidth).sum := by
  induction ss generalizing v with
  | nil => rfl
  | cons s ss ih =>
    simp only [List.map_cons,List.sum_cons] at h ⊢
    have slice : (v.take s.temporalWidth).length = s.temporalWidth := by
      rw [List.length_take]
      omega
    have rest : (v.drop s.temporalWidth).length = (ss.map Statistic.temporalWidth).sum := by
      rw [List.length_drop]
      omega
    rw [outputs,List.length_append,s.output_length slice,ih rest]

/-- Nothing is left of the vector that an output is written over. -/
theorem writeOutput_eq {b : TemporalBin Binary32} (h : b.features.length = e.temporalCount)
    {out : List Binary32} (room : out.length = e.outputCount) :
    e.writeOutput b out = outputs e.statistics b.features := by
  unfold writeOutput
  unfold temporalCount at h
  unfold outputCount at room
  generalize e.statistics = ss at h room
  generalize b.features = v at h
  induction ss generalizing v out with
  | nil => exact List.length_eq_zero_iff.mp room
  | cons s ss ih =>
    simp only [List.map_cons,List.sum_cons] at h room
    have slice : (v.take s.temporalWidth).length = s.temporalWidth := by
      rw [List.length_take]
      omega
    have place : (out.take s.outputWidth).length = (s.output (v.take s.temporalWidth)).length := by
      rw [s.output_length slice,List.length_take]
      omega
    have left : (out.drop s.outputWidth).length = (ss.map Statistic.outputWidth).sum := by
      rw [List.length_drop]
      omega
    have rest : (v.drop s.temporalWidth).length = (ss.map Statistic.temporalWidth).sum := by
      rw [List.length_drop]
      omega
    have tail := ih left _ rest
    rw [onSlicePairs,overwrite_eq_front _ _ place,tail,outputs]

theorem fillVector_length : e.fillVector.length = e.outputCount := by
  simp [fillVector,outputCount,List.length_flatMap]

end Ensemble

end GlobeBins

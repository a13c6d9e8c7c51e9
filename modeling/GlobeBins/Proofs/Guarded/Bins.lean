import GlobeBins.Proofs.Guarded.Statistics

namespace GlobeBins

namespace Guarded

/-- As `Ensemble.onSlices`; a slice may be beyond the vector. -/
def onSlices {α : Type} (width : Statistic → Nat)
    (f : Statistic → List α → Except Stop (List α)) :
    List Statistic → List α → Except Stop (List α)
  | [],v => return v
  | s::ss,v => do
    let slice ← f s (← front v (width s))
    return slice++(← onSlices width f ss (v.drop (width s)))

/-- As `Ensemble.onSlicePairs`; a slice may be beyond its vector. -/
def onSlicePairs {α β : Type} (readWidth width : Statistic → Nat)
    (f : Statistic → List β → List α → Except Stop (List α)) :
    List Statistic → List β → List α → Except Stop (List α)
  | [],_,v => return v
  | s::ss,r,v => do
    let slice ← f s (← front r (readWidth s)) (← front v (width s))
    return slice++(← onSlicePairs readWidth width f ss (r.drop (readWidth s)) (v.drop (width s)))

section

variable (e : Ensemble)

def newSpatial (index : Int64) : Except Stop (SpatialBin Binary32) := do
  let v ← onSlices Statistic.spatialWidth (fun s => write s.neutralSpatial) e.statistics
    (List.replicate e.spatialCount 0)
  return ⟨index,0,v⟩

def addObservation (samples : List Binary32) (b : SpatialBin Binary32) :
    Except Stop (SpatialBin Binary32) := do
  let v ← onSlices Statistic.spatialWidth (fun s v => addSamples samples v s) e.statistics
    b.features
  return ⟨b.index,← plus b.observations 1,v⟩

def finishBin (b : SpatialBin Binary32) : Except Stop (SpatialBin Binary32) := do
  let v ← onSlices Statistic.spatialWidth
    (fun s v => finishSpatial b.observations.toInt v s) e.statistics b.features
  return ⟨b.index,b.observations,v⟩

def newTemporal (index : Int64) : Except Stop (TemporalBin Binary32) := do
  let v ← onSlices Statistic.temporalWidth (fun s => write s.neutralTemporal) e.statistics
    (List.replicate e.temporalCount 0)
  return ⟨index,0,0,v⟩

def mergeCell (c : SpatialBin Binary32) (b : TemporalBin Binary32) :
    Except Stop (TemporalBin Binary32) := do
  let v ← onSlicePairs Statistic.spatialWidth Statistic.temporalWidth
    (fun s cell v => addCell cell c.observations.toInt v s) e.statistics c.features b.features
  return ⟨b.index,← plus b.observations c.observations,← plus b.passes 1,v⟩

/-- Every statistic has its slice, but none has anything left to do. -/
def finishMerged (b : TemporalBin Binary32) : Except Stop (TemporalBin Binary32) := do
  let v ← onSlices Statistic.temporalWidth (fun s v => return s.finishTemporal v) e.statistics
    b.features
  return ⟨b.index,b.observations,b.passes,v⟩

def merge (index : Int64) (cells : List (SpatialBin Binary32)) :
    Except Stop (TemporalBin Binary32) := do
  let b ← cells.foldlM (fun b c => mergeCell e c b) (← newTemporal e index)
  finishMerged e b

def writeOutput (b : TemporalBin Binary32) (out : List Binary32) :
    Except Stop (List Binary32) :=
  onSlicePairs Statistic.temporalWidth Statistic.outputWidth (fun s v out => output v out s)
    e.statistics b.features out

def fillVector : Except Stop (List Binary32) :=
  onSlices Statistic.outputWidth (fun s => write (List.replicate s.outputWidth s.fill))
    e.statistics (List.replicate e.outputCount Binary32.nan)

end

theorem onSlices_eq {α : Type} {width : Statistic → Nat}
    {f : Statistic → List α → Except Stop (List α)} {g : Statistic → List α → List α}
    {ss : List Statistic} {v : List α} (fits : v.length = (ss.map width).sum)
    (step : ∀ s ∈ ss,∀ v,v.length = width s → f s v = .ok (g s v)) :
    onSlices width f ss v = .ok (Ensemble.onSlices width g ss v) := by
  induction ss generalizing v with
  | nil => rfl
  | cons s ss ih =>
    simp only [List.map_cons,List.sum_cons] at fits
    have here : (v.take (width s)).length = width s := by
      rw [List.length_take]
      omega
    have rest : (v.drop (width s)).length = (ss.map width).sum := by
      rw [List.length_drop]
      omega
    rw [onSlices,front_eq (by omega),ok_bind,step s (by simp) _ here,ok_bind,
      ih rest fun t ht => step t (by simp [ht])]
    rfl

theorem onSlicePairs_eq {α β : Type} {readWidth width : Statistic → Nat}
    {f : Statistic → List β → List α → Except Stop (List α)}
    {g : Statistic → List β → List α → List α} {ss : List Statistic} {r : List β} {v : List α}
    (reads : r.length = (ss.map readWidth).sum) (fits : v.length = (ss.map width).sum)
    (step : ∀ s ∈ ss,∀ r v,r.length = readWidth s → v.length = width s → f s r v = .ok (g s r v)) :
    onSlicePairs readWidth width f ss r v = .ok (Ensemble.onSlicePairs readWidth width g ss r v) := by
  induction ss generalizing r v with
  | nil => rfl
  | cons s ss ih =>
    simp only [List.map_cons,List.sum_cons] at reads fits
    have read : (r.take (readWidth s)).length = readWidth s := by
      rw [List.length_take]
      omega
    have here : (v.take (width s)).length = width s := by
      rw [List.length_take]
      omega
    have unread : (r.drop (readWidth s)).length = (ss.map readWidth).sum := by
      rw [List.length_drop]
      omega
    have rest : (v.drop (width s)).length = (ss.map width).sum := by
      rw [List.length_drop]
      omega
    rw [onSlicePairs,front_eq (by omega),ok_bind,front_eq (by omega),ok_bind,
      step s (by simp) _ _ read here,ok_bind,ih unread rest fun t ht => step t (by simp [ht])]
    rfl

section

variable {e : Ensemble}

theorem newSpatial_eq (index : Int64) : newSpatial e index = .ok (e.newSpatial index) := by
  have room : (List.replicate e.spatialCount (0 : Binary32)).length =
      (e.statistics.map Statistic.spatialWidth).sum := List.length_replicate
  have slices := onSlices_eq (f := fun s => write s.neutralSpatial)
    (g := fun s => overwrite s.neutralSpatial) room
    fun s _ v width => write_eq (by rw [s.neutralSpatial_length,width])
  rw [newSpatial,slices]
  rfl

theorem addObservation_eq {samples : List Binary32} {b : SpatialBin Binary32} {n : Nat}
    (enough : ∀ s ∈ e.statistics,∀ i ∈ s.reads,i < samples.length)
    (width : b.features.length = e.spatialCount) (count : b.observations = Int32.ofNat n)
    (low : n+1 < 2^31) : addObservation e samples b = .ok (e.addSamples samples b) := by
  have slices := onSlices_eq (f := fun s v => addSamples samples v s)
    (g := fun s v => s.addSamples samples v) width
    fun s hs v width => addSamples_eq s (enough s hs) width
  have one : plus b.observations 1 = .ok (b.observations+1) := by
    rw [count]
    exact plus_ofNat low
  rw [addObservation,slices,ok_bind,one]
  rfl

theorem finishBin_eq {b : SpatialBin Binary32} (width : b.features.length = e.spatialCount) :
    finishBin e b = .ok (e.finishSpatial b) := by
  have slices := onSlices_eq (f := fun s v => finishSpatial b.observations.toInt v s)
    (g := fun s v => s.finishSpatial b.observations.toInt v) width
    fun s _ v width => finishSpatial_eq s _ width
  rw [finishBin,slices]
  rfl

theorem newTemporal_eq (index : Int64) : newTemporal e index = .ok (e.newTemporal index) := by
  have room : (List.replicate e.temporalCount (0 : Binary32)).length =
      (e.statistics.map Statistic.temporalWidth).sum := List.length_replicate
  have slices := onSlices_eq (f := fun s => write s.neutralTemporal)
    (g := fun s => overwrite s.neutralTemporal) room
    fun s _ v width => write_eq (by rw [s.neutralTemporal_length,width])
  rw [newTemporal,slices]
  rfl

theorem mergeCell_eq {c : SpatialBin Binary32} {b : TemporalBin Binary32} {n m k : Nat}
    (reads : c.features.length = e.spatialCount) (width : b.features.length = e.temporalCount)
    (more : c.observations = Int32.ofNat m) (count : b.observations = Int32.ofNat n)
    (passes : b.passes = Int32.ofNat k) (low : n+m < 2^31) (few : k+1 < 2^31) :
    mergeCell e c b = .ok (e.addCell c b) := by
  have slices := onSlicePairs_eq (f := fun s cell v => addCell cell c.observations.toInt v s)
    (g := fun s cell v => s.addCell cell c.observations.toInt v) reads width
    fun s _ cell v read width => addCell_eq s _ read width
  have sum : plus b.observations c.observations = .ok (b.observations+c.observations) := by
    rw [count,more]
    exact plus_ofNat low
  have one : plus b.passes 1 = .ok (b.passes+1) := by
    rw [passes]
    exact plus_ofNat few
  rw [mergeCell,slices,ok_bind,sum,ok_bind,one]
  rfl

theorem finishMerged_eq {b : TemporalBin Binary32} (width : b.features.length = e.temporalCount) :
    finishMerged e b = .ok (e.finishTemporal b) := by
  have slices := onSlices_eq (f := fun s v => return s.finishTemporal v)
    (g := fun s v => s.finishTemporal v) width fun _ _ _ _ => rfl
  rw [finishMerged,slices]
  rfl

/-- Cells that can be merged: each has the width of its statistics and a count that is a word. -/
def Mergeable (e : Ensemble) (counts : List Nat) (cells : List (SpatialBin Binary32)) : Prop :=
  List.Forall₂ (fun n c => c.features.length = e.spatialCount ∧ c.observations = Int32.ofNat n)
    counts cells

theorem foldlM_mergeCell {counts : List Nat} {cells : List (SpatialBin Binary32)}
    (h : Mergeable e counts cells) {b : TemporalBin Binary32} {n k : Nat}
    (width : b.features.length = e.temporalCount) (count : b.observations = Int32.ofNat n)
    (passes : b.passes = Int32.ofNat k) (low : n+counts.sum < 2^31)
    (few : k+cells.length < 2^31) : cells.foldlM (fun b c => mergeCell e c b) b =
      .ok (cells.foldl (fun b c => e.addCell c b) b) := by
  induction h generalizing b n k with
  | nil => rfl
  | @cons m c counts cells first _ ih =>
    rw [List.sum_cons] at low
    rw [List.length_cons] at few
    have step : mergeCell e c b = .ok (e.addCell c b) :=
      mergeCell_eq first.1 width first.2 count passes (by omega) (by omega)
    have observations : (e.addCell c b).observations = Int32.ofNat (n+m) := by
      rw [Int32.ofNat_add,← count,← first.2]
      rfl
    have next : (e.addCell c b).passes = Int32.ofNat (k+1) := by
      rw [Int32.ofNat_add,← passes]
      rfl
    rw [List.foldlM_cons,step,ok_bind]
    exact ih ((e.addCell_length c b).trans width) observations next (by omega) (by omega)

theorem merge_eq (index : Int64) {counts : List Nat} {cells : List (SpatialBin Binary32)}
    (h : Mergeable e counts cells) (low : counts.sum < 2^31) (few : cells.length < 2^31) :
    merge e index cells = .ok (e.merge index cells) := by
  have folded := foldlM_mergeCell h (e.newTemporal_length index) (b := e.newTemporal index)
    (n := 0) (k := 0) rfl rfl (by omega) (by omega)
  have width := e.merge_length index cells
  rw [Ensemble.merge,Ensemble.finishTemporal_length] at width
  rw [merge,newTemporal_eq,ok_bind,folded,ok_bind]
  exact finishMerged_eq width

theorem writeOutput_eq {b : TemporalBin Binary32} {out : List Binary32}
    (width : b.features.length = e.temporalCount) (room : out.length = e.outputCount) :
    writeOutput e b out = .ok (e.writeOutput b out) :=
  onSlicePairs_eq width room fun s _ _ _ width room => output_eq s width room

theorem fillVector_eq : fillVector e = .ok e.fillVector := by
  have room : (List.replicate e.outputCount Binary32.nan).length =
      (e.statistics.map Statistic.outputWidth).sum := List.length_replicate
  have slices := onSlices_eq (f := fun s => write (List.replicate s.outputWidth s.fill))
    (g := fun s => overwrite (List.replicate s.outputWidth s.fill)) room
    fun s _ v width => write_eq (by rw [List.length_replicate,width])
  rw [fillVector,slices,Ensemble.onSlices_overwrite (fun _ => List.length_replicate) _ room]
  rfl

end

end Guarded

end GlobeBins

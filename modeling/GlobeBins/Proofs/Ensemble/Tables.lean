import GlobeBins.Proofs.Ensemble.Slices

namespace GlobeBins

/-- A statistic in bins of its own. -/
def Statistic.alone (s : Statistic) : Ensemble := ⟨[s]⟩

theorem overwrite_keeps {α : Type} {front v : List α} {n : Nat} (fits : front.length = n)
    (h : v.length = n) : (overwrite front v).length = n := by
  rw [overwrite_eq_front _ _ (h.trans fits.symm),fits]

namespace Ensemble

variable (e : Ensemble)

/-- The table of slices that is laid out by names. -/
def spans (names : Statistic → List String) : List Span :=
  (Span.layout (e.statistics.map names)).1

/-- A table of spans that divides a vector among the statistics, and its names likewise. -/
structure Tiles (names : Statistic → List String) (count : Nat) : Prop where
  consecutive : Span.Consecutive 0 (e.spans names) count
  apart : (e.spans names).Pairwise fun r s => r.stop ≤ s.start
  covers : ∀ p < count,∃ r ∈ e.spans names,r.start ≤ p ∧ p < r.stop
  cuts : (e.spans names).map (fun r => r.of (e.statistics.flatMap names)) = e.statistics.map names
  length : (e.statistics.flatMap names).length = count

/-- Every operation on a bin works through the tables, slice by slice and in place. -/
structure InPlace : Prop where
  newSpatial : ∀ index,(e.newSpatial index).features =
    Span.inPlace ((e.spans Statistic.spatialNames).zip
      (e.statistics.map fun s => overwrite s.neutralSpatial)) (List.replicate e.spatialCount 0)
  addSamples : ∀ samples b,b.features.length = e.spatialCount →
    (e.addSamples samples b).features = Span.inPlace ((e.spans Statistic.spatialNames).zip
      (e.statistics.map fun s v => s.addSamples samples v)) b.features
  finishSpatial : ∀ b,b.features.length = e.spatialCount →
    (e.finishSpatial b).features = Span.inPlace ((e.spans Statistic.spatialNames).zip
      (e.statistics.map fun s v => s.finishSpatial b.observations.toInt v)) b.features
  newTemporal : ∀ index,(e.newTemporal index).features =
    Span.inPlace ((e.spans Statistic.temporalNames).zip
      (e.statistics.map fun s => overwrite s.neutralTemporal)) (List.replicate e.temporalCount 0)
  addCell : ∀ c b,c.features.length = e.spatialCount → b.features.length = e.temporalCount →
    (e.addCell c b).features = Span.inPlace ((e.spans Statistic.temporalNames).zip
      (List.zipWith (fun s r v => s.addCell (r.of c.features) c.observations.toInt v) e.statistics
        (e.spans Statistic.spatialNames))) b.features
  finishTemporal : ∀ b,b.features.length = e.temporalCount →
    (e.finishTemporal b).features = Span.inPlace ((e.spans Statistic.temporalNames).zip
      (e.statistics.map fun s v => s.finishTemporal v)) b.features
  writeOutput : ∀ b out,b.features.length = e.temporalCount → out.length = e.outputCount →
    e.writeOutput b out = Span.inPlace ((e.spans Statistic.outputNames).zip
      (List.zipWith (fun s r => overwrite (s.output (r.of b.features))) e.statistics
        (e.spans Statistic.temporalNames))) out

variable {e}

theorem spans_eq {names : Statistic → List String} {width : Statistic → Nat}
    (lengths : ∀ s,(names s).length = width s) :
    e.spans names = Span.row 0 (e.statistics.map width) := by
  rw [spans,Span.layout_eq,List.map_map]
  exact congrArg (Span.row 0) (List.map_congr_left fun s _ => lengths s)

theorem tiles {names : Statistic → List String} {width : Statistic → Nat}
    (lengths : ∀ s,(names s).length = width s) :
    e.Tiles names (e.statistics.map width).sum := by
  have consecutive : Span.Consecutive 0 (e.spans names) (e.statistics.map width).sum := by
    have row := Span.row_consecutive 0 (e.statistics.map width)
    rwa [Nat.zero_add,← spans_eq lengths] at row
  constructor
  case consecutive => exact consecutive
  case apart => exact consecutive.apart
  case covers => exact fun p last => consecutive.covers (Nat.zero_le p) last
  case cuts =>
    have widths : e.statistics.map (List.length ∘ names) = e.statistics.map width :=
      List.map_congr_left fun s _ => lengths s
    have same := splitLengths_flatten (e.statistics.map names)
    rw [List.map_map,widths] at same
    rw [spans_eq lengths,Span.row_of,List.drop_zero,List.flatMap_def,same]
  case length =>
    rw [List.length_flatMap]
    exact congrArg List.sum (List.map_congr_left fun s _ => lengths s)

section

variable {α : Type} {names : Statistic → List String} {width : Statistic → Nat}
  (lengths : ∀ s,(names s).length = width s) {v : List α}
  (fits : v.length = (e.statistics.map width).sum)

section

variable {k : Nat} {s : Statistic} {x : Span} (at_k : e.statistics[k]? = some s)
  (span : (e.spans names)[k]? = some x)

include lengths fits at_k span

theorem of_length : (x.of v).length = width s := by
  have row := Span.row_of 0 (e.statistics.map width) v
  have widths := List.map_splitLengths_length v (e.statistics.map width) fits.ge
  rw [List.drop_zero] at row
  rw [← row,← spans_eq lengths,List.map_map] at widths
  have same := congrArg (·[k]?) widths
  simp only [List.getElem?_map,span,at_k,Option.map_some,Function.comp_apply] at same
  exact Option.some.inj same

end

section

variable {f : Statistic → List α → List α}
  (keeps : ∀ s v,v.length = width s → (f s v).length = width s)

include lengths fits keeps

theorem onSlices_inPlace : onSlices width f e.statistics v =
    Span.inPlace ((e.spans names).zip (e.statistics.map f)) v := by
  rw [onSlices_changed fits,spans_eq lengths]
  exact (inPlace_row (keep_map keeps) fits []).symm

variable {k : Nat} {s : Statistic} {x : Span} (at_k : e.statistics[k]? = some s)
  (span : (e.spans names)[k]? = some x)

include at_k span

/-- The slice of a statistic is worked on by this statistic alone. -/
theorem onSlices_slice :
    onSlices width f s.alone.statistics (x.of v) = x.of (onSlices width f e.statistics v) := by
  have own := of_length lengths fits at_k span
  have alone : onSlices width f s.alone.statistics (x.of v) = f s (x.of v) := by
    rw [Statistic.alone,onSlices,onSlices,List.take_of_length_le own.le,
      List.drop_eq_nil_of_le own.le,List.append_nil]
  rw [spans_eq lengths] at span
  rw [alone,onSlices_changed fits]
  refine (of_changed (keep_map keeps) fits span ?_).symm
  rw [List.getElem?_map,at_k]
  rfl

end

section

variable {β : Type} {readNames : Statistic → List String} {readWidth : Statistic → Nat}
  (readLengths : ∀ s,(readNames s).length = readWidth s) {r : List β}
  (reads : r.length = (e.statistics.map readWidth).sum) {f : Statistic → List β → List α → List α}
  (keeps : ∀ s r v,r.length = readWidth s → v.length = width s → (f s r v).length = width s)

include lengths fits readLengths reads keeps

theorem onSlicePairs_inPlace : onSlicePairs readWidth width f e.statistics r v =
    Span.inPlace ((e.spans names).zip
      (List.zipWith (fun s x => f s (x.of r)) e.statistics (e.spans readNames))) v := by
  have row := Span.row_of 0 (e.statistics.map readWidth) r
  rw [List.drop_zero] at row
  have cut : List.zipWith (fun s x => f s (x.of r)) e.statistics (e.spans readNames) =
      readings readWidth f e.statistics r := by
    rw [readings,← row,List.zipWith_map_right,spans_eq readLengths]
  rw [onSlicePairs_changed fits,spans_eq lengths,cut]
  exact (inPlace_row (keep_readings reads keeps) fits []).symm

variable {k : Nat} {s : Statistic} {x y : Span} (at_k : e.statistics[k]? = some s)
  (readSpan : (e.spans readNames)[k]? = some x) (span : (e.spans names)[k]? = some y)

include at_k readSpan span

theorem onSlicePairs_slice : onSlicePairs readWidth width f s.alone.statistics (x.of r) (y.of v) =
    y.of (onSlicePairs readWidth width f e.statistics r v) := by
  have ownRead := of_length readLengths reads at_k readSpan
  have own := of_length lengths fits at_k span
  have alone : onSlicePairs readWidth width f s.alone.statistics (x.of r) (y.of v) =
      f s (x.of r) (y.of v) := by
    rw [Statistic.alone,onSlicePairs,onSlicePairs,List.take_of_length_le ownRead.le,
      List.take_of_length_le own.le,List.drop_eq_nil_of_le own.le,List.append_nil]
  have row := Span.row_of 0 (e.statistics.map readWidth) r
  rw [List.drop_zero] at row
  rw [spans_eq readLengths] at readSpan
  rw [spans_eq lengths] at span
  rw [alone,onSlicePairs_changed fits]
  refine (of_changed (keep_readings reads keeps) fits span ?_).symm
  rw [readings,List.getElem?_zipWith,at_k,← row,List.getElem?_map,readSpan]
  rfl

end

end

theorem inPlace (e : Ensemble) : e.InPlace where
  newSpatial _ := onSlices_inPlace Statistic.spatialNames_length List.length_replicate
    fun s _ => overwrite_keeps s.neutralSpatial_length
  addSamples samples _ width := onSlices_inPlace Statistic.spatialNames_length width
    fun s v h => (s.addSamples_length samples v).trans h
  finishSpatial _ width := onSlices_inPlace Statistic.spatialNames_length width
    fun s v h => (s.finishSpatial_length _ v).trans h
  newTemporal _ := onSlices_inPlace Statistic.temporalNames_length List.length_replicate
    fun s _ => overwrite_keeps s.neutralTemporal_length
  addCell c _ reads width := onSlicePairs_inPlace Statistic.temporalNames_length width
    Statistic.spatialNames_length reads (f := fun s cell v => s.addCell cell c.observations.toInt v)
    fun s cell v _ h => (s.addCell_length cell _ v).trans h
  finishTemporal _ width := onSlices_inPlace Statistic.temporalNames_length width fun _ _ h => h
  writeOutput _ _ reads width := onSlicePairs_inPlace Statistic.outputNames_length width
    Statistic.temporalNames_length reads (f := fun s v => overwrite (s.output v))
    fun s _ _ h => overwrite_keeps (s.output_length h)

end Ensemble

end GlobeBins

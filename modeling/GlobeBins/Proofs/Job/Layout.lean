import GlobeBins.Proofs.Job.Passes
import GlobeBins.Proofs.Shuffle.Layout

namespace GlobeBins

/-- The temporal bins of some spatial bins: one for each cell, in the order of the cells, from all bins
of the cell in the order of their sources. -/
structure Ensemble.Merges (e : Ensemble) (sources : List (SourceRecords (SpatialBin Binary32)))
    (bins : List (TemporalBin Binary32)) : Prop where
  ascending : bins.Pairwise fun a b => a.index < b.index
  cells : ∀ i,(∃ b ∈ bins,b.index = i) ↔ ∃ s ∈ sources,∃ c ∈ s.records,c.index = i
  merged : ∀ b ∈ bins,∃ cells,InOrder SpatialBin.index sources b.index cells ∧
    b = e.merge b.index cells ∧ e.Merged cells b

/-- The bins of each cell, merged as one partition would merge them. -/
def Ensemble.mergeAll (e : Ensemble) (sources : List (SourceRecords (SpatialBin Binary32))) :
    List (TemporalBin Binary32) :=
  (groupByKey SpatialBin.index (arrival sources)).map fun g => e.merge g.1 g.2

section

variable {e : Ensemble} {sources : List (SourceRecords (SpatialBin Binary32))}

theorem Ensemble.mem_mergeAll {b : TemporalBin Binary32} : b ∈ e.mergeAll sources ↔
    ∃ i,withKey SpatialBin.index i (arrival sources) ≠ [] ∧
      e.merge i (withKey SpatialBin.index i (arrival sources)) = b := by
  rw [mergeAll,List.mem_map]
  constructor
  · intro h
    obtain ⟨⟨i,cells⟩,hg,rfl⟩ := h
    obtain ⟨some,rfl⟩ := mem_groupByKey.mp hg
    exact ⟨i,some,rfl⟩
  · intro h
    obtain ⟨i,some,rfl⟩ := h
    exact ⟨(i,_),mem_groupByKey.mpr ⟨some,rfl⟩,rfl⟩

theorem Ensemble.mergeAll_merges : e.Merges sources (e.mergeAll sources) where
  ascending := by
    rw [mergeAll,List.pairwise_map]
    refine (groupByKey_pairwise _).imp ?_
    intro g h lt
    rw [merge_index,merge_index]
    exact Std.compare_eq_lt.mp lt
  cells i := by
    rw [← withKey_arrival_ne_nil]
    simp only [mem_mergeAll]
    constructor
    · intro h
      obtain ⟨b,⟨j,some,rfl⟩,rfl⟩ := h
      rwa [merge_index]
    · intro some
      exact ⟨_,⟨i,some,rfl⟩,e.merge_index i _⟩
  merged b hb := by
    obtain ⟨i,_,rfl⟩ := mem_mergeAll.mp hb
    rw [merge_index]
    exact ⟨_,inOrder_withKey SpatialBin.index sources i,rfl,e.merge_merged i _⟩

end

namespace Job

/-- The partitions of the first merge make up what a single one gives. -/
theorem temporalPass_mergeAll {job : Job}
    (low : job.settings.reducers*job.scheme.grid.rows < 2^64)
    (sources : List (SourceRecords (SpatialBin Binary32))) :
    (job.temporalPass sources).flatten = job.scheme.ensemble.mergeAll sources :=
  shuffleMerge_groups _
    (RowRouting.routing_inside _ (RowRouting.ofLatitudes_partitions _ _ _ _))
    (RowRouting.ofLatitudes_ordered low _ _)

theorem temporalPass_length (job : Job) (sources : List (SourceRecords (SpatialBin Binary32))) :
    (job.temporalPass sources).length = max job.settings.reducers 1 := by
  simp [temporalPass,shuffleMerge,shuffle_length,RowRouting.routing,RowRouting.ofLatitudes,
    RowRouting.ofRows]

/-- Jobs that differ only in how cells are shared out merge the same cells in the same order. -/
theorem temporalPass_layout {job other : Job} (scheme : other.scheme = job.scheme)
    (low : job.settings.reducers*job.scheme.grid.rows < 2^64)
    (otherLow : other.settings.reducers*job.scheme.grid.rows < 2^64)
    (sources : List (SourceRecords (SpatialBin Binary32))) :
    (job.temporalPass sources).length = max job.settings.reducers 1 ∧
      job.scheme.ensemble.Merges sources (job.temporalPass sources).flatten ∧
      (other.temporalPass sources).flatten = (job.temporalPass sources).flatten := by
  have here := temporalPass_mergeAll low sources
  have there : (other.temporalPass sources).flatten = job.scheme.ensemble.mergeAll sources := by
    rw [← scheme] at otherLow ⊢
    exact temporalPass_mergeAll otherLow sources
  refine ⟨job.temporalPass_length sources,?_,there.trans here.symm⟩
  rw [here]
  exact Ensemble.mergeAll_merges

/-- Sums on two rows of four cells, with a number of partitions and without regions. -/
def layered (reducers : Nat) : Job :=
  ⟨"layered",⟨2,reducers,1,.little,[⟨"x",none⟩],[⟨"SUM","x",[]⟩],[],none⟩,
    ⟨.ofColumns #[4,4] (by decide) (by decide),[⟨"x",none⟩],⟨[.total ⟨"x",0⟩]⟩⟩,[]⟩

/-- A cell of two sources that arrived in the wrong order, one of the other row and one off the grid. -/
theorem temporalPass_layout_two :
    let sources : List (SourceRecords (SpatialBin Binary32)) :=
      [⟨1,[⟨2,1,[5]⟩,⟨4,1,[1]⟩]⟩,⟨0,[⟨-7,2,[3]⟩,⟨2,1,[6]⟩]⟩]
    (layered 2).scheme = (layered 1).scheme ∧ ((layered 2).temporalPass sources).length = 2 ∧
      ((layered 1).temporalPass sources).length = 1 ∧
      (layered 1).scheme.ensemble.Merges sources ((layered 1).temporalPass sources).flatten ∧
      ((layered 2).temporalPass sources).flatten = ((layered 1).temporalPass sources).flatten := by
  intro sources
  have same : (layered 2).scheme = (layered 1).scheme := rfl
  have low : (layered 1).settings.reducers*(layered 1).scheme.grid.rows < 2^64 := by decide
  have otherLow : (layered 2).settings.reducers*(layered 1).scheme.grid.rows < 2^64 := by decide
  exact ⟨same,temporalPass_length _ sources,temporalPass_layout same low otherLow sources⟩

end Job

end GlobeBins

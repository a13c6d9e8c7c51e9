import GlobeBins.Proofs.Ensemble.Lifetime
import GlobeBins.Proofs.Guarded.Passes

namespace GlobeBins

namespace Statistic

variable (s : Statistic)

/-- Samples folded in their order. -/
def folded (samples : List (List Binary32)) : List Binary32 :=
  samples.foldl (fun v xs => s.addSamples xs v) s.neutralSpatial

/-- What the samples of a cell come to, their number included. -/
def summary (samples : List (List Binary32)) : List Binary32 :=
  s.finishSpatial samples.length (s.folded samples)

theorem folded_append (samples : List (List Binary32)) (xs : List Binary32) :
    s.folded (samples++[xs]) = s.addSamples xs (s.folded samples) := by
  rw [folded,List.foldl_append,← folded,List.foldl_cons,List.foldl_nil]

theorem folded_length (samples : List (List Binary32)) :
    (s.folded samples).length = s.spatialWidth := by
  induction samples using List.reverseRecOn with
  | nil => exact s.neutralSpatial_length
  | append_singleton samples xs ih => rw [folded_append,addSamples_length,ih]

end Statistic

namespace Ensemble

variable (e : Ensemble)

theorem gathered_features (index : Int64) (samples : List (List Binary32)) :
    (e.gathered index samples).features = e.statistics.flatMap fun s => s.folded samples := by
  induction samples using List.reverseRecOn with
  | nil => exact e.resetSpatial_eq List.length_replicate
  | append_singleton samples xs ih =>
    have step : (e.gathered index (samples++[xs])).features = onSlices Statistic.spatialWidth
        (fun s v => s.addSamples xs v) e.statistics (e.gathered index samples).features := by
      rw [gathered,List.foldl_append,← gathered]
      rfl
    rw [step,ih,onSlices_flatMap fun s => s.folded_length samples]
    simp only [Statistic.folded_append]

theorem binned_features (index : Int64) {samples : List (List Binary32)}
    (few : samples.length < 2^31) :
    (e.binned index samples).features = e.statistics.flatMap fun s => s.summary samples := by
  have count : (e.gathered index samples).observations.toInt = samples.length := by
    rw [(e.gathered_spec index samples).2.1,Int32.toInt_ofNat_of_lt few]
  have finished : (e.binned index samples).features = onSlices Statistic.spatialWidth
      (fun s v => s.finishSpatial (e.gathered index samples).observations.toInt v) e.statistics
      (e.gathered index samples).features := rfl
  rw [finished,count,gathered_features,onSlices_flatMap fun s => s.folded_length samples]
  rfl

end Ensemble

/-- What a pass over some observations has to give. -/
structure Reference (c : Scheme) (os : List Observation) (bins : List (SpatialBin Binary32))
    (counts : PassCounts) : Prop where
  ascending : bins.Pairwise fun a b => a.index < b.index
  cells : ∀ i,(∃ b ∈ bins,b.index = i) ↔ ∃ o ∈ os,c.admits o = true ∧ c.cellOf o = i
  observations : ∀ b ∈ bins,b.observations.toInt = (c.inCell os b.index).length
  features : ∀ b ∈ bins,b.features = c.ensemble.statistics.flatMap fun s =>
    s.summary ((c.inCell os b.index).map Observation.samples)
  offered : counts.observations = os.length
  refused : counts.skipped = (os.filter fun o => !c.admits o).length
  made : counts.bins = bins.length
  conserved : (bins.map fun b => b.observations.toInt).sum =
    (counts.observations : Int)-counts.skipped

theorem nodup_of_ascending {α : Type} {bins : List (SpatialBin α)}
    (ascending : bins.Pairwise fun a b => a.index < b.index) : (bins.map SpatialBin.index).Nodup := by
  rw [List.Nodup,List.pairwise_map]
  exact ascending.imp fun lt eq => absurd (eq ▸ lt) Int64.lt_irrefl

namespace Reference

variable {c : Scheme} {os : List Observation} {bins others : List (SpatialBin Binary32)}
  {counts otherCounts : PassCounts}

theorem mem_of_mem (h : Reference c os bins counts) (other : Reference c os others otherCounts)
    {b : SpatialBin Binary32} (hb : b ∈ bins) : b ∈ others := by
  obtain ⟨b',hb',index⟩ := (other.cells b.index).mpr ((h.cells b.index).mp ⟨b,hb,rfl⟩)
  have observations : b'.observations = b.observations := by
    rw [← Int32.toInt_inj,other.observations b' hb',h.observations b hb,index]
  have features : b'.features = b.features := by
    rw [other.features b' hb',h.features b hb,index]
  have same : b' = b := by
    cases b
    cases b'
    simp only at index observations features
    rw [index,observations,features]
  rwa [← same]

/-- The answer is determined. -/
theorem unique (h : Reference c os bins counts) (other : Reference c os others otherCounts) :
    bins = others ∧ counts = otherCounts := by
  have same : bins = others := eq_of_ascending Int64.lt_asymm h.ascending other.ascending
    fun b => ⟨h.mem_of_mem other,other.mem_of_mem h⟩
  refine ⟨same,?_⟩
  have made : counts.bins = otherCounts.bins := by rw [h.made,other.made,same]
  cases counts
  cases otherCounts
  simp only [PassCounts.mk.injEq]
  exact ⟨h.offered.trans other.offered.symm,h.refused.trans other.refused.symm,made⟩

end Reference

namespace SpatialPass

variable {c : Scheme}

theorem run_ascending_index (os : List Observation) :
    (run c os).1.Pairwise fun a b => a.index < b.index :=
  (run_ascending os).imp Std.compare_eq_lt.mp

theorem mem_run_index {os : List Observation} {i : Int64} :
    (∃ b ∈ (run c os).1,b.index = i) ↔ ∃ o ∈ os,c.admits o = true ∧ c.cellOf o = i := by
  have some : (∃ b ∈ (run c os).1,b.index = i) ↔ c.inCell os i ≠ [] := by
    simp only [mem_run]
    constructor
    · intro h
      obtain ⟨b,⟨j,ne,rfl⟩,rfl⟩ := h
      rwa [Scheme.cell_index]
    · exact fun ne => ⟨_,⟨i,ne,rfl⟩,Scheme.cell_index os i⟩
  rw [some]
  constructor
  · intro ne
    obtain ⟨o,ho⟩ := List.exists_mem_of_ne_nil _ ne
    exact ⟨o,Scheme.mem_inCell.mp ho⟩
  · intro h
    obtain ⟨o,ho⟩ := h
    exact List.ne_nil_of_mem (Scheme.mem_inCell.mpr ho)

/-- The cells of the bins are told apart, so each accepted observation is counted once. -/
theorem sum_inCell (os : List Observation) :
    ((run c os).1.map fun b => (c.inCell os b.index).length).sum = (os.filter c.admits).length := by
  rw [← Scheme.sum_cells,← ((run_indices os).map _).sum_eq,List.map_map]
  rfl

theorem cell_eq_binned (os : List Observation) (i : Int64) :
    c.cell os i = c.ensemble.binned i ((c.inCell os i).map Observation.samples) := by
  rw [Scheme.cell,Scheme.gathered,Ensemble.binned,Ensemble.gathered,List.foldl_map]

theorem run_reference {os : List Observation} (few : (os.filter c.admits).length < 2^31) :
    Reference c os (run c os).1 (run c os).2 := by
  have inside (i : Int64) : (c.inCell os i).length < 2^31 :=
    Nat.lt_of_le_of_lt (Scheme.inCell_length_le os i) few
  have own : ∀ b ∈ (run c os).1,b = c.cell os b.index := by
    intro b hb
    obtain ⟨i,_,rfl⟩ := mem_run.mp hb
    rw [Scheme.cell_index]
  have observations : ∀ b ∈ (run c os).1,
      b.observations.toInt = (c.inCell os b.index).length := by
    intro b hb
    have count := congrArg SpatialBin.observations (own b hb)
    rw [count,Scheme.cell_observations,Int32.toInt_ofNat_of_lt (inside _)]
  constructor
  case ascending => exact run_ascending_index os
  case cells => exact fun i => mem_run_index
  case observations => exact observations
  case features =>
    intro b hb
    have features := congrArg SpatialBin.features (own b hb)
    have low : ((c.inCell os b.index).map Observation.samples).length < 2^31 := by
      rw [List.length_map]
      exact inside b.index
    rw [features,cell_eq_binned,Ensemble.binned_features _ _ low]
  case offered => rw [run_counts]
  case refused => rw [run_counts]
  case made => rw [run_counts]
  case conserved =>
    have parts := List.length_eq_length_filter_add (l := os) c.admits
    have total := congrArg (Nat.cast : Nat → Int) (sum_inCell (c := c) os)
    rw [Nat.cast_list_sum,List.map_map] at total
    rw [List.map_congr_left observations,run_counts]
    refine total.trans ?_
    simp only
    omega

end SpatialPass

/-- A pass gives the bins and counters that its observations determine, and no others would do. A
refused observation counts and does nothing else. Step by step a pass goes through to the end. -/
theorem pass_determined (c : Scheme) (os : List Observation)
    (few : (os.filter c.admits).length < 2^31) :
    (∀ bins counts,Reference c os bins counts ↔ SpatialPass.run c os = (bins,counts)) ∧
    (∀ bins : List (SpatialBin Binary32),bins.Perm (SpatialPass.run c os).1 →
      bins.Pairwise (fun a b => a.index ≤ b.index) → bins = (SpatialPass.run c os).1) ∧
    (∀ p o,c.admits o = false →
      SpatialPass.offer c p o = ⟨p.bins,p.observations+1,p.skipped+1⟩) ∧
    (c.Resolved → Guarded.binPartition c os = .ok (SpatialPass.run c os)) := by
  have reference := SpatialPass.run_reference few
  refine ⟨?_,?_,?_,?_⟩
  · intro bins counts
    constructor
    · intro h
      obtain ⟨rfl,rfl⟩ := h.unique reference
      rfl
    · intro h
      rwa [h] at reference
  · intro bins perm sorted
    have nodup := (perm.map SpatialBin.index).nodup_iff.mpr (nodup_of_ascending reference.ascending)
    rw [List.Nodup,List.pairwise_map] at nodup
    have ascending := sorted.and nodup
    exact eq_of_ascending Int64.lt_asymm (ascending.imp fun h => Int64.lt_of_le_of_ne h.1 h.2)
      reference.ascending fun b => perm.mem_iff
  · intro p o h
    simp [SpatialPass.offer,h]
  · exact fun resolved => Guarded.binPartition_eq resolved few

/-- A refused observation between two of one cell. -/
theorem pass_determined_refusal : ∃ c : Scheme,∃ os : List Observation,
    c.grid.columns = #[3,3] ∧ c.ensemble = ⟨[.total ⟨"x",0⟩]⟩ ∧
    os = [⟨0,0,0,[1]⟩,⟨0,Binary64.nan,0,[1]⟩,⟨0,0,0,[1]⟩] ∧
    (os.filter c.admits).length = 2 ∧
    Reference c os (SpatialPass.run c os).1 (SpatialPass.run c os).2 ∧
    Guarded.binPartition c os = .ok (SpatialPass.run c os) := by
  let c : Scheme := ⟨.ofColumns #[3,3] (by decide) (by decide),[⟨"x",none⟩],⟨[.total ⟨"x",0⟩]⟩⟩
  let os : List Observation := [⟨0,0,0,[1]⟩,⟨0,Binary64.nan,0,[1]⟩,⟨0,0,0,[1]⟩]
  have two : (os.filter c.admits).length = 2 := by decide
  have resolved : c.Resolved := by simp [Scheme.Resolved,c,Statistic.reads]
  obtain ⟨exactly,_,_,steps⟩ := pass_determined c os (by rw [two]; decide)
  exact ⟨c,os,rfl,rfl,rfl,two,(exactly _ _).mpr rfl,steps resolved⟩

end GlobeBins

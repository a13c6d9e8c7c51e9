import GlobeBins.SpatialPass
import GlobeBins.Proofs.Ensemble.Widths
import GlobeBins.Proofs.Shuffle.Groups

namespace GlobeBins

namespace Scheme

variable (c : Scheme)

/-- The accepted observations that fall in a cell. -/
def inCell (os : List Observation) (i : Int64) : List Observation :=
  os.filter fun o => c.admits o && c.cellOf o == i

/-- The bin that the observations of a cell are folded into. -/
def gathered (os : List Observation) (i : Int64) : SpatialBin Binary32 :=
  (c.inCell os i).foldl (fun b o => c.ensemble.addSamples o.samples b) (c.ensemble.newSpatial i)

/-- The finished bin of a cell. -/
def cell (os : List Observation) (i : Int64) : SpatialBin Binary32 :=
  c.ensemble.finishSpatial (c.gathered os i)

/-- The cells that accepted observations fall in. -/
def cells (os : List Observation) : List Int64 := ((os.filter c.admits).map c.cellOf).dedup

variable {c}

theorem mem_inCell {os : List Observation} {i : Int64} {o : Observation} :
    o ∈ c.inCell os i ↔ o ∈ os ∧ c.admits o = true ∧ c.cellOf o = i := by
  simp [inCell]

theorem inCell_append (os os' : List Observation) (i : Int64) :
    c.inCell (os++os') i = c.inCell os i++c.inCell os' i := List.filter_append _ _

theorem inCell_length_le (os : List Observation) (i : Int64) :
    (c.inCell os i).length ≤ (os.filter c.admits).length := by
  have split : c.inCell os i = (os.filter c.admits).filter fun o => c.cellOf o == i := by
    simp only [inCell,List.filter_filter,Bool.and_comm]
  rw [split]
  exact List.length_filter_le _ _

theorem mem_cells {os : List Observation} {i : Int64} : i ∈ c.cells os ↔ c.inCell os i ≠ [] := by
  rw [cells,List.mem_dedup,List.mem_map]
  constructor
  · intro h
    obtain ⟨o,ho,rfl⟩ := h
    obtain ⟨mem,admitted⟩ := List.mem_filter.mp ho
    exact List.ne_nil_of_mem (mem_inCell.mpr ⟨mem,admitted,rfl⟩)
  · intro some
    obtain ⟨o,ho⟩ := List.exists_mem_of_ne_nil _ some
    obtain ⟨mem,admitted,cell⟩ := mem_inCell.mp ho
    exact ⟨o,List.mem_filter.mpr ⟨mem,admitted⟩,cell⟩

theorem cells_nodup (os : List Observation) : (c.cells os).Nodup := List.nodup_dedup _

/-- Each accepted observation is in one of the cells. -/
theorem sum_cells (os : List Observation) :
    ((c.cells os).map fun i => (c.inCell os i).length).sum = (os.filter c.admits).length := by
  have count (i : Int64) :
      (c.inCell os i).length = ((os.filter c.admits).map c.cellOf).count i := by
    rw [List.count_eq_length_filter,List.filter_map,List.length_map,List.filter_filter,inCell]
    simp only [Function.comp_def,Bool.and_comm]
  simp only [count,cells]
  rw [List.sum_map_count_dedup_eq_length,List.length_map]

theorem foldl_addSamples (e : Ensemble) (os : List Observation) (b : SpatialBin Binary32) :
    (os.foldl (fun b o => e.addSamples o.samples b) b).index = b.index ∧
    (os.foldl (fun b o => e.addSamples o.samples b) b).observations =
      b.observations+Int32.ofNat os.length ∧
    (os.foldl (fun b o => e.addSamples o.samples b) b).features.length = b.features.length := by
  have folded := e.foldl_addSamples (os.map Observation.samples) b
  rwa [List.foldl_map,List.length_map] at folded

theorem cell_index (os : List Observation) (i : Int64) : (c.cell os i).index = i :=
  (foldl_addSamples c.ensemble _ _).1

theorem gathered_observations (os : List Observation) (i : Int64) :
    (c.gathered os i).observations = Int32.ofNat (c.inCell os i).length := by
  have count := (foldl_addSamples c.ensemble (c.inCell os i) (c.ensemble.newSpatial i)).2.1
  exact count.trans (Int32.zero_add _)

theorem cell_observations (os : List Observation) (i : Int64) :
    (c.cell os i).observations = Int32.ofNat (c.inCell os i).length := gathered_observations os i

theorem gathered_length (os : List Observation) (i : Int64) :
    (c.gathered os i).features.length = c.ensemble.spatialCount :=
  (foldl_addSamples c.ensemble _ _).2.2.trans (c.ensemble.newSpatial_length i)

theorem cell_length (os : List Observation) (i : Int64) :
    (c.cell os i).features.length = c.ensemble.spatialCount :=
  (Ensemble.finishSpatial_length _ _).trans (gathered_length os i)

end Scheme

namespace SpatialPass

variable {c : Scheme}

/-- One observation touches the bin of its own cell only. -/
theorem offer_getElem? (p : SpatialPass) (o : Observation) (i : Int64) :
    (p.offer c o).bins[i]? =
      if c.admits o && c.cellOf o == i then
        some (c.ensemble.addSamples o.samples ((p.bins[i]?).getD (c.ensemble.newSpatial i)))
      else p.bins[i]? := by
  by_cases admitted : c.admits o
  · by_cases here : c.cellOf o = i
    · simp [offer,admitted,here]
    · simp [offer,admitted,here,Std.TreeMap.getElem?_alter]
  · simp [offer,admitted]

/-- Holds of every prefix of a partition. -/
theorem bins_getElem? (os : List Observation) (i : Int64) :
    (os.foldl (offer c) empty).bins[i]? =
      if c.inCell os i = [] then none else some (c.gathered os i) := by
  induction os using List.reverseRecOn with
  | nil => rfl
  | append_singleton os o ih =>
    rw [List.foldl_append,List.foldl_cons,List.foldl_nil,offer_getElem?,ih]
    by_cases here : (c.admits o && c.cellOf o == i) = true
    · have cell : c.inCell (os++[o]) i = c.inCell os i++[o] := by
        rw [Scheme.inCell_append]
        simp [Scheme.inCell,here]
      have folded : c.gathered (os++[o]) i = c.ensemble.addSamples o.samples (c.gathered os i) := by
        rw [Scheme.gathered,cell,List.foldl_append]
        rfl
      have ne : c.inCell os i++[o] ≠ [] := by simp
      rw [if_pos here,cell,if_neg ne,folded]
      by_cases first : c.inCell os i = []
      · rw [if_pos first,Scheme.gathered,first]
        rfl
      · rw [if_neg first,Option.getD_some]
    · have cell : c.inCell (os++[o]) i = c.inCell os i := by
        rw [Scheme.inCell_append]
        simp [Scheme.inCell,here]
      rw [if_neg here,Scheme.gathered,Scheme.gathered,cell]

/-- A cell has a bin exactly if an accepted observation falls in it. -/
theorem mem_run {os : List Observation} {b : SpatialBin Binary32} :
    b ∈ (run c os).1 ↔ ∃ i,c.inCell os i ≠ [] ∧ c.cell os i = b := by
  rw [run,finish,List.mem_map]
  constructor
  · intro h
    obtain ⟨⟨i,g⟩,mem,rfl⟩ := h
    rw [Std.TreeMap.mem_toList_iff_getElem?_eq_some,bins_getElem?] at mem
    split at mem
    next => cases mem
    next ne =>
      cases mem
      exact ⟨i,ne,rfl⟩
  · intro h
    obtain ⟨i,ne,rfl⟩ := h
    refine ⟨(i,c.gathered os i),?_,rfl⟩
    rw [Std.TreeMap.mem_toList_iff_getElem?_eq_some,bins_getElem?,if_neg ne]

theorem run_ascending (os : List Observation) :
    (run c os).1.Pairwise fun a b => compare a.index b.index = .lt := by
  have keys : (os.foldl (offer c) empty).bins.toList.Pairwise fun a b => compare a.1 b.1 = .lt :=
    Std.TreeMap.ordered_keys_toList
  have own : ∀ g ∈ (os.foldl (offer c) empty).bins.toList,
      (c.ensemble.finishSpatial g.2).index = g.1 := by
    intro h mem
    obtain ⟨i,g⟩ := h
    rw [Std.TreeMap.mem_toList_iff_getElem?_eq_some,bins_getElem?] at mem
    split at mem
    next => cases mem
    next =>
      cases mem
      exact Scheme.cell_index os i
  rw [run,finish,List.pairwise_map]
  refine keys.imp_of_mem ?_
  intro a b ha hb lt
  rw [own a ha,own b hb]
  exact lt

/-- There is one bin for each cell that accepted observations fall in. -/
theorem run_indices (os : List Observation) :
    ((run c os).1.map SpatialBin.index).Perm (c.cells os) := by
  rw [List.perm_ext_iff_of_nodup _ (Scheme.cells_nodup os)]
  · intro i
    rw [Scheme.mem_cells,List.mem_map]
    constructor
    · intro h
      obtain ⟨b,hb,rfl⟩ := h
      obtain ⟨i,some,rfl⟩ := mem_run.mp hb
      rwa [Scheme.cell_index]
    · exact fun some => ⟨_,mem_run.mpr ⟨i,some,rfl⟩,Scheme.cell_index os i⟩
  · rw [List.Nodup,List.pairwise_map]
    refine (run_ascending os).imp ?_
    intro a b lt eq
    rw [eq,Std.ReflOrd.compare_self] at lt
    cases lt

/-- Of a cell there is one bin, or none if no accepted observation falls in it. -/
theorem run_withKey (os : List Observation) (i : Int64) :
    withKey SpatialBin.index i (run c os).1 = if c.inCell os i = [] then [] else [c.cell os i] := by
  have nodup : (withKey SpatialBin.index i (run c os).1).Nodup := by
    refine List.Nodup.filter _ ((run_ascending os).imp ?_)
    intro a b lt eq
    subst eq
    rw [Std.ReflOrd.compare_self] at lt
    cases lt
  have members : ∀ b,b ∈ withKey SpatialBin.index i (run c os).1 ↔
      c.inCell os i ≠ [] ∧ c.cell os i = b := by
    intro b
    rw [mem_withKey,mem_run,Std.LawfulEqOrd.compare_eq_iff_eq]
    constructor
    · intro h
      obtain ⟨⟨j,ne,rfl⟩,eq⟩ := h
      rw [Scheme.cell_index] at eq
      subst eq
      exact ⟨ne,rfl⟩
    · intro h
      obtain ⟨ne,rfl⟩ := h
      exact ⟨⟨i,ne,rfl⟩,Scheme.cell_index os i⟩
  split
  next none =>
    rw [List.eq_nil_iff_forall_not_mem]
    intro b hb
    exact ((members b).mp hb).1 none
  next some =>
    have same : (withKey SpatialBin.index i (run c os).1).Perm [c.cell os i] := by
      rw [List.perm_ext_iff_of_nodup nodup (List.nodup_singleton _)]
      intro b
      rw [members,List.mem_singleton,eq_comm]
      exact ⟨fun h => h.2,fun h => ⟨some,h⟩⟩
    exact List.perm_singleton.mp same

/-- Every observation is counted, and bins are counted as they are given. -/
theorem run_counts (os : List Observation) :
    (run c os).2 =
      ⟨os.length,(os.filter fun o => !c.admits o).length,(run c os).1.length⟩ := by
  have counted : ∀ p : SpatialPass,(os.foldl (offer c) p).observations = p.observations+os.length ∧
      (os.foldl (offer c) p).skipped = p.skipped+(os.filter fun o => !c.admits o).length := by
    induction os with
    | nil => exact fun _ => ⟨rfl,rfl⟩
    | cons o os ih =>
      intro p
      obtain ⟨observations,skipped⟩ := ih (p.offer c o)
      rw [List.foldl_cons,observations,skipped]
      by_cases admitted : c.admits o
      · simp [offer,admitted]
        omega
      · simp [offer,admitted]
        omega
  obtain ⟨observations,skipped⟩ := counted empty
  simp only [run,finish,observations,skipped,List.length_map,Std.TreeMap.length_toList]
  simp only [empty,Nat.zero_add]

end SpatialPass

end GlobeBins

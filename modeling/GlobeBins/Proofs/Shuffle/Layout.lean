import GlobeBins.Proofs.Grid.Numbering
import GlobeBins.Proofs.Shuffle.Contract

namespace GlobeBins

/-- A greater key goes to no lower partition. -/
def Routing.Ordered {κ : Type} [Ord κ] (routing : Routing κ) : Prop :=
  ∀ a b : κ,compare a b = .lt → routing.partitionOf a ≤ routing.partitionOf b

section

variable {ρ κ : Type} [Ord κ] [Std.TransOrd κ] [Std.LawfulEqOrd κ] {routing : Routing κ} {key : ρ → κ}
  {sources : List (SourceRecords ρ)}

/-- Keys in different partitions are in the order of the partitions. -/
theorem Routing.Ordered.lt (ordered : routing.Ordered) {a b : κ}
    (below : routing.partitionOf a < routing.partitionOf b) : compare a b = .lt := by
  cases order : compare a b with
  | lt => rfl
  | eq =>
    rw [Std.LawfulEqOrd.eq_of_compare order] at below
    omega
  | gt =>
    have least := ordered b a (Std.OrientedCmp.lt_of_gt order)
    omega

theorem shuffle_groups_ascending (ordered : routing.Ordered) :
    ((shuffle routing key sources).flatMap Partition.groups).Pairwise
      fun g h => compare g.1 h.1 = .lt := by
  rw [List.pairwise_flatMap]
  constructor
  · intro p hp
    rw [(mem_shuffle.mp hp).2]
    exact groupByKey_pairwise _
  · have ids : ((shuffle routing key sources).map Partition.id).Pairwise (· < ·) := by
      rw [shuffle_ids]
      exact List.pairwise_lt_range
    refine (List.pairwise_map.mp ids).imp_of_mem ?_
    intro p q hp hq below g hg h hh
    apply ordered.lt
    rw [((mem_groups hp).mp hg).1,((mem_groups hq).mp hh).1]
    exact below

theorem mem_shuffle_groups (inside : ∀ k,routing.partitionOf k < routing.partitions)
    {g : κ × List ρ} : g ∈ (shuffle routing key sources).flatMap Partition.groups ↔
      g ∈ groupByKey key (arrival sources) := by
  obtain ⟨k,records⟩ := g
  rw [mem_groupByKey,List.mem_flatMap]
  constructor
  · intro h
    obtain ⟨p,hp,hg⟩ := h
    exact ((mem_groups hp).mp hg).2
  · intro h
    let p : Partition κ ρ := ⟨routing.partitionOf k,
      groupByKey key (share routing key sources (routing.partitionOf k))⟩
    have hp : p ∈ shuffle routing key sources := mem_shuffle.mpr ⟨inside k,rfl⟩
    exact ⟨p,hp,(mem_groups hp).mpr ⟨rfl,h⟩⟩

/-- One after another, the partitions hold what a single one would. -/
theorem shuffle_groups (inside : ∀ k,routing.partitionOf k < routing.partitions)
    (ordered : routing.Ordered) : (shuffle routing key sources).flatMap Partition.groups =
      groupByKey key (arrival sources) := by
  have ascending : ((shuffle routing key sources).flatMap Partition.groups).Pairwise
      fun g h => compare g.1 h.1 = .lt := shuffle_groups_ascending ordered
  refine eq_of_ascending ?_ ascending (groupByKey_pairwise _) fun g => mem_shuffle_groups inside
  intro g h lt
  exact Std.OrientedCmp.not_lt_of_lt lt

theorem shuffleMerge_groups {β : Type} (merge : κ → List ρ → β)
    (inside : ∀ k,routing.partitionOf k < routing.partitions) (ordered : routing.Ordered) :
    (shuffleMerge routing key sources merge).flatten =
      (groupByKey key (arrival sources)).map fun g => merge g.1 g.2 := by
  rw [shuffleMerge,← List.flatMap_def,← List.map_flatMap,shuffle_groups inside ordered]

end

namespace RowRouting

variable {r : RowRouting}

/-- Rows to the south go to no lower partition, unless the words overflow in which they are shared
out. -/
theorem partitionOfRow_mono (low : (r.last-r.first)*r.partitions < 2^64) {row row' : Nat}
    (le : row ≤ row') : r.partitionOfRow row ≤ r.partitionOfRow row' := by
  have fits (row : Nat) :
      (max (min row r.last) r.first-r.first)*r.partitions%2^64 =
        (max (min row r.last) r.first-r.first)*r.partitions := by
    have most : max (min row r.last) r.first-r.first ≤ r.last-r.first := by omega
    exact Nat.mod_eq_of_lt (Nat.lt_of_le_of_lt (Nat.mul_le_mul_right _ most) low)
  have offsets : max (min row r.last) r.first-r.first ≤ max (min row' r.last) r.first-r.first := by
    omega
  simp only [partitionOfRow,fits]
  exact min_le_min_right _ (Nat.div_le_div_right (Nat.mul_le_mul_right _ offsets))

theorem partitionOfRow_single (one : r.partitions = 1) (row : Nat) : r.partitionOfRow row = 0 := by
  simp [partitionOfRow,one]

theorem routing_ordered (low : r.partitions = 1 ∨ (r.last-r.first)*r.partitions < 2^64) :
    r.routing.Ordered := by
  intro bin bin' lt
  change r.partitionOfRow (r.grid.rowOf bin) ≤ r.partitionOfRow (r.grid.rowOf bin')
  rcases low with one | low
  · rw [partitionOfRow_single one,partitionOfRow_single one]
  · exact partitionOfRow_mono low (Grid.rowOf_mono (Int64.le_of_lt (Std.compare_eq_lt.mp lt)))

/-- Whatever the latitudes, their rows are rows of the grid. -/
theorem ofLatitudes_ordered {κ : Type} [Coordinate κ] {grid : Grid} {partitions : Nat}
    (low : partitions*grid.rows < 2^64) (south north : κ) :
    (ofLatitudes grid partitions south north).routing.Ordered := by
  apply routing_ordered
  simp only [ofLatitudes,ofRows]
  by_cases none : partitions = 0
  · left
    omega
  · right
    have count : max partitions 1 = partitions := by omega
    have rows : min (grid.rowAt south) (grid.rows-1)-
        min (grid.rowAt north) (min (grid.rowAt south) (grid.rows-1)) ≤ grid.rows := by omega
    rw [count]
    refine Nat.lt_of_le_of_lt (Nat.mul_le_mul_right _ rows) ?_
    rwa [Nat.mul_comm]

end RowRouting

end GlobeBins

import GlobeBins.Bin
import GlobeBins.Grid

namespace GlobeBins

-- Zero as the core library has it.
attribute [local instance (high)] Zero.ofOfNat0

/-- Where keys go. -/
structure Routing (κ : Type) where
  partitions : Nat
  partitionOf : κ → Nat

/-- Contiguous ranges of grid rows, from a first to a last row; rows outside go with the nearest. -/
structure RowRouting where
  grid : Grid
  partitions : Nat
  first : Nat
  last : Nat

namespace RowRouting

/-- There is at least one partition, and the rows lie on the grid in order. -/
def ofRows (grid : Grid) (partitions first last : Nat) : RowRouting :=
  let last := min last (grid.rows-1)
  ⟨grid,max partitions 1,min first last,last⟩

def all (grid : Grid) (partitions : Nat) : RowRouting := ofRows grid partitions 0 (grid.rows-1)

/-- Rows between two latitudes; the northern one has the lower row. -/
def ofLatitudes {κ : Type} [Coordinate κ] (grid : Grid) (partitions : Nat) (south north : κ) :
    RowRouting :=
  ofRows grid partitions (grid.rowAt north) (grid.rowAt south)

/-- Rows are shared out in proportion, computed in 64 bit words. -/
def partitionOfRow (r : RowRouting) (row : Nat) : Nat :=
  let rows := r.last-r.first+1
  let offset := max (min row r.last) r.first-r.first
  min (offset*r.partitions%2^64/rows) (r.partitions-1)

def routing (r : RowRouting) : Routing Int64 :=
  ⟨r.partitions,fun bin => r.partitionOfRow (r.grid.rowOf bin)⟩

end RowRouting

/-- Regions in turn: the remainder of the region index by the number of partitions, which is taken
as a 32 bit integer. -/
def regionRouting (partitions : Nat) : Routing RegionKey :=
  let partitions := max partitions 1
  ⟨partitions,fun key => (key.region.toInt%(Int32.ofNat partitions).toInt).toNat⟩

instance : Ord RegionKey := ⟨RegionKey.order⟩

/-- Records of one source in the order they were given. -/
structure SourceRecords (ρ : Type) where
  source : Nat
  records : List ρ

/-- The records routed to one partition, by key. -/
structure Partition (κ ρ : Type) where
  id : Nat
  groups : List (κ × List ρ)

def Partition.size {κ ρ : Type} (p : Partition κ ρ) : Nat := (p.groups.map (·.2.length)).sum

section

variable {κ ρ : Type} [Ord κ]

/-- Sorts by key and cuts where the key changes; sorting is stable. -/
def groupByKey (key : ρ → κ) (records : List ρ) : List (κ × List ρ) :=
  let sorted := records.mergeSort fun a b => (compare (key a) (key b)).isLE
  (sorted.splitBy fun a b => compare (key a) (key b) == .eq).filterMap fun
    | [] => none
    | r::rs => some (key r,r::rs)

/-- All records in the order of their sources. -/
def arrival (sources : List (SourceRecords ρ)) : List ρ :=
  (sources.mergeSort fun a b => a.source ≤ b.source).flatMap SourceRecords.records

/-- Every partition occurs, also one without records. -/
def shuffle (routing : Routing κ) (key : ρ → κ) (sources : List (SourceRecords ρ)) :
    List (Partition κ ρ) :=
  let routed := (arrival sources).map fun r => (routing.partitionOf (key r),r)
  (List.range routing.partitions).map fun id =>
    ⟨id,groupByKey key ((routed.filter (·.1 = id)).map Prod.snd)⟩

/-- Shuffles and merges each group. -/
def shuffleMerge {β : Type} (routing : Routing κ) (key : ρ → κ) (sources : List (SourceRecords ρ))
    (merge : κ → List ρ → β) : List (List β) :=
  (shuffle routing key sources).map fun p => p.groups.map fun g => merge g.1 g.2

theorem shuffle_length (routing : Routing κ) (key : ρ → κ) (sources : List (SourceRecords ρ)) :
    (shuffle routing key sources).length = routing.partitions := by
  simp [shuffle]

end

end GlobeBins

import GlobeBins.Numeric.Binary32

namespace GlobeBins

/-- Samples of one partition in one cell. -/
structure SpatialBin (α : Type) where
  index : Int64
  observations : Int32
  features : List α
  deriving DecidableEq

/-- One cell over all partitions that touched it; each of them is a pass. -/
structure TemporalBin (α : Type) where
  index : Int64
  observations : Int32
  passes : Int32
  features : List α
  deriving DecidableEq

/-- Orders bins by region, and by index within a region. -/
structure RegionKey where
  region : Int32
  bin : Int64
  deriving DecidableEq

namespace RegionKey

def order (a b : RegionKey) : Ordering := (compare a.region b.region).then (compare a.bin b.bin)

/-- Keys of one region are in one group. -/
def groupOrder (a b : RegionKey) : Ordering := compare a.region b.region

theorem order_self (a : RegionKey) : a.order a = .eq := by
  simp [order,Std.ReflCmp.compare_self]

end RegionKey

/-- The copy of a bin that belongs to one region. -/
structure RegionBin (α : Type) where
  key : RegionKey
  bin : TemporalBin α
  deriving DecidableEq

namespace RegionBin

variable {α : Type}

/-- The key's index is the bin's. -/
def of (region : Int32) (bin : TemporalBin α) : RegionBin α := ⟨⟨region,bin.index⟩,bin⟩

/-- Ascending keys; bins of one key keep their order. -/
def sort (bs : List (RegionBin α)) : List (RegionBin α) :=
  bs.mergeSort fun a b => (a.key.order b.key).isLE

/-- Cuts a list where the region changes. -/
def groups (bs : List (RegionBin α)) : List (List (RegionBin α)) :=
  bs.splitBy fun a b => a.key.groupOrder b.key == .eq

theorem sort_perm (bs : List (RegionBin α)) : (sort bs).Perm bs := List.mergeSort_perm _ _

end RegionBin

end GlobeBins

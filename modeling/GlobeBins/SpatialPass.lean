import Std.Data.TreeMap
import GlobeBins.Ensemble
import GlobeBins.Grid
import GlobeBins.Observation

namespace GlobeBins

/-- What all partitions of a job are binned with. -/
structure Scheme where
  grid : Grid
  vars : List Variable
  ensemble : Ensemble

namespace Scheme

/-- Position and samples of the observation can be used. -/
def admits (c : Scheme) (o : Observation) : Bool :=
  o.lat.isFinite && o.lon.isFinite && !Variable.refuses c.vars o.samples &&
    c.ensemble.accepts o.samples

/-- The cell that an observation falls in. -/
def cellOf (c : Scheme) (o : Observation) : Int64 := c.grid.binAt o.lat o.lon

end Scheme

/-- Counters of a finished pass. -/
structure PassCounts where
  observations : Nat
  skipped : Nat
  bins : Nat
  deriving DecidableEq

/-- The bins of one partition so far, and what was offered to it. -/
structure SpatialPass where
  bins : Std.TreeMap Int64 (SpatialBin Binary32)
  observations : Nat
  skipped : Nat

namespace SpatialPass

def empty : SpatialPass := ⟨∅,0,0⟩

def offer (c : Scheme) (p : SpatialPass) (o : Observation) : SpatialPass :=
  if c.admits o then
    let index := c.cellOf o
    ⟨p.bins.alter index fun b =>
      some (c.ensemble.addSamples o.samples (b.getD (c.ensemble.newSpatial index))),
      p.observations+1,p.skipped⟩
  else ⟨p.bins,p.observations+1,p.skipped+1⟩

/-- All bins in ascending order, each finished with its own count. -/
def finish (c : Scheme) (p : SpatialPass) : List (SpatialBin Binary32) × PassCounts :=
  (p.bins.toList.map fun b => c.ensemble.finishSpatial b.2,
    ⟨p.observations,p.skipped,p.bins.size⟩)

/-- The pass over a whole sequence. -/
def run (c : Scheme) (os : List Observation) : List (SpatialBin Binary32) × PassCounts :=
  (os.foldl (offer c) empty).finish c

theorem offer_of_not_admits {c : Scheme} {o : Observation} (p : SpatialPass)
    (h : c.admits o = false) : (p.offer c o).bins = p.bins := by
  simp [offer,h]

end SpatialPass

end GlobeBins

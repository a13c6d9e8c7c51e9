import GlobeBins.Bin
import GlobeBins.Statistic.Basic

namespace GlobeBins

-- Zero as the core library has it.
attribute [local instance (high)] Zero.ofOfNat0

/-- Several statistics over one bin. A bin's vectors are theirs one after another, and every
operation acts on each statistic's slice alone. -/
structure Ensemble where
  statistics : List Statistic
  deriving DecidableEq

namespace Ensemble

/-- Applies a function to each statistic's slice of a vector; what no slice covers stays. -/
def onSlices {α : Type} (width : Statistic → Nat) (f : Statistic → List α → List α) :
    List Statistic → List α → List α
  | [],v => v
  | s::ss,v => f s (v.take (width s))++onSlices width f ss (v.drop (width s))

/-- As `onSlices`, with the matching slice of another vector. -/
def onSlicePairs {α β : Type} (readWidth width : Statistic → Nat)
    (f : Statistic → List β → List α → List α) : List Statistic → List β → List α → List α
  | [],_,v => v
  | s::ss,r,v =>
    f s (r.take (readWidth s)) (v.take (width s))++
      onSlicePairs readWidth width f ss (r.drop (readWidth s)) (v.drop (width s))

variable (e : Ensemble)

def spatialNames : List String := e.statistics.flatMap Statistic.spatialNames

def temporalNames : List String := e.statistics.flatMap Statistic.temporalNames

def outputNames : List String := e.statistics.flatMap Statistic.outputNames

def spatialCount : Nat := (e.statistics.map Statistic.spatialWidth).sum

def temporalCount : Nat := (e.statistics.map Statistic.temporalWidth).sum

def outputCount : Nat := (e.statistics.map Statistic.outputWidth).sum

theorem spatialNames_length : e.spatialNames.length = e.spatialCount := by
  simp [spatialNames,spatialCount,List.length_flatMap,Statistic.spatialNames_length]

theorem temporalNames_length : e.temporalNames.length = e.temporalCount := by
  simp [temporalNames,temporalCount,List.length_flatMap,Statistic.temporalNames_length]

theorem outputNames_length : e.outputNames.length = e.outputCount := by
  simp [outputNames,outputCount,List.length_flatMap,Statistic.outputNames_length]

/-- Sets a spatial vector to its neutral state. -/
def resetSpatial (v : List Binary32) : List Binary32 :=
  onSlices Statistic.spatialWidth (fun s => overwrite s.neutralSpatial) e.statistics v

def resetTemporal (v : List Binary32) : List Binary32 :=
  onSlices Statistic.temporalWidth (fun s => overwrite s.neutralTemporal) e.statistics v

def newSpatial (index : Int64) : SpatialBin Binary32 :=
  ⟨index,0,e.resetSpatial (List.replicate e.spatialCount 0)⟩

/-- Every statistic can fold the samples. -/
def accepts (samples : List Binary32) : Bool := e.statistics.all (Statistic.accepts samples)

/-- Folds the samples of one observation. -/
def addSamples (samples : List Binary32) (b : SpatialBin Binary32) : SpatialBin Binary32 :=
  ⟨b.index,b.observations+1,
    onSlices Statistic.spatialWidth (fun s v => s.addSamples samples v) e.statistics b.features⟩

def finishSpatial (b : SpatialBin Binary32) : SpatialBin Binary32 :=
  ⟨b.index,b.observations,
    onSlices Statistic.spatialWidth (fun s v => s.finishSpatial b.observations.toInt v)
      e.statistics b.features⟩

def newTemporal (index : Int64) : TemporalBin Binary32 :=
  ⟨index,0,0,e.resetTemporal (List.replicate e.temporalCount 0)⟩

/-- Merges a finished spatial bin. -/
def addCell (c : SpatialBin Binary32) (b : TemporalBin Binary32) : TemporalBin Binary32 :=
  ⟨b.index,b.observations+c.observations,b.passes+1,
    onSlicePairs Statistic.spatialWidth Statistic.temporalWidth
      (fun s cell v => s.addCell cell c.observations.toInt v) e.statistics c.features b.features⟩

def finishTemporal (b : TemporalBin Binary32) : TemporalBin Binary32 :=
  ⟨b.index,b.observations,b.passes,
    onSlices Statistic.temporalWidth (fun s v => s.finishTemporal v) e.statistics b.features⟩

/-- Writes the output of a bin over the vector `out`. -/
def writeOutput (b : TemporalBin Binary32) (out : List Binary32) : List Binary32 :=
  onSlicePairs Statistic.temporalWidth Statistic.outputWidth
    (fun s v => overwrite (s.output v)) e.statistics b.features out

/-- Output of a cell without data. -/
def fillVector : List Binary32 :=
  e.statistics.flatMap fun s => List.replicate s.outputWidth s.fill

/-- All spatial bins of one cell, in order, as one temporal bin. -/
def merge (index : Int64) (cells : List (SpatialBin Binary32)) : TemporalBin Binary32 :=
  e.finishTemporal (cells.foldl (fun b c => e.addCell c b) (e.newTemporal index))

/-- The first setting that asks for no statistic decides. -/
def ofSettings (vs : List Variable) (settings : List StatisticSetting) : Except Fault Ensemble := do
  return ⟨← settings.zipIdx.mapM fun p => Statistic.ofSetting vs p.2 p.1⟩

end Ensemble

end GlobeBins

import GlobeBins.Codec
import GlobeBins.Product
import GlobeBins.Settings
import GlobeBins.Shuffle
import GlobeBins.SpatialPass

namespace GlobeBins

/-- Settings with all that is made of them before anything is read. -/
structure Job where
  id : String
  settings : Settings
  scheme : Scheme
  regions : List (Region Binary64)

/-- Region indices are 32 bit integers. -/
def Job.maxRegions : Nat := 2^31-1

/-- Checks the settings in order; the first check that fails decides. The grid is that of this cosine. -/
def Job.makeWith (cosine : Binary64 → Binary64) (id : String) (s : Settings) : Except Fault Job := do
  s.validate
  let grid ← Grid.makeWith cosine s.rows
  let ensemble ← Ensemble.ofSettings s.vars s.statistics
  let regions ← Region.ofSettings grid s.regions
  if regions.length ≤ Job.maxRegions then .ok ⟨id,s,⟨grid,s.vars,ensemble⟩,regions⟩
  else .error .overflow

def Job.make (id : String) (s : Settings) : Except Fault Job := makeWith Binary64.cos id s

namespace Job

variable (job : Job)

def spatialCodec : Codec :=
  ⟨job.settings.byteOrder,ByteOrder.native,job.scheme.ensemble.spatialCount⟩

def regionCodec : Codec :=
  ⟨job.settings.byteOrder,ByteOrder.native,job.scheme.ensemble.temporalCount⟩

/-- South and north end of all regions. -/
def latitudeExtent : Binary64 × Binary64 :=
  (Region.latitudeExtent? job.regions).getD (Binary64.ofInt (-90),90)

/-- Bins one partition; the first item that is no observation decides. -/
def binPartition (items : List (Except Fault Observation)) :
    Except Fault (List (SpatialBin Binary32) × PassCounts) := do
  return SpatialPass.run job.scheme (← items.mapM fun item => item)

/-- One temporal bin per cell, in partitions of ascending rows. -/
def temporalPass (sources : List (SourceRecords (SpatialBin Binary32))) :
    List (List (TemporalBin Binary32)) :=
  let (south,north) := job.latitudeExtent
  let rows := RowRouting.ofLatitudes job.scheme.grid job.settings.reducers south north
  shuffleMerge rows.routing SpatialBin.index sources job.scheme.ensemble.merge

/-- Copies for the regions, as they travel between the passes. -/
def encodeCopies (bins : List (TemporalBin Binary32)) : Except Fault Bytes :=
  job.regionCodec.encodeRegion (bins.flatMap (Region.fanOut job.scheme.grid job.regions))

/-- Copies in partitions of regions, by region and cell. -/
def regionPass (temporal : List (List (TemporalBin Binary32))) :
    Except Fault (List (List (RegionBin Binary32))) := do
  let encoded ← temporal.mapM job.encodeCopies
  let decoded ← encoded.mapM job.regionCodec.decodeRegion
  let sources := decoded.zipIdx.map fun p => ⟨p.2,p.1⟩
  let partitions :=
    shuffle (regionRouting job.settings.regionPartitions) RegionBin.key sources
  return partitions.map fun p => p.groups.flatMap Prod.snd

def metadata (region : Int32) : Metadata :=
  let (name,wkt) := match job.regions[region.toInt.toNat]? with
    | some r => (r.name,r.wkt)
    | none => ("","")
  ⟨job.id,region,name,wkt,job.settings.period,job.scheme.grid.rows,job.scheme.ensemble.outputNames⟩

/-- Calls for the bins of one region, and the output vector they leave. One vector is written over
for every bin. -/
def binCalls : List Binary32 → List (RegionBin Binary32) → List ProductCall × List Binary32
  | out,[] => ([.finish],out)
  | out,b::bs =>
    let output := job.scheme.ensemble.writeOutput b.bin out
    let (calls,last) := binCalls output bs
    (.bin b output::calls,last)

def groupCalls : List Binary32 → List (List (RegionBin Binary32)) → List ProductCall
  | _,[] => []
  | out,[]::gs => groupCalls out gs
  | out,(b::bs)::gs =>
    let (calls,last) := job.binCalls out (b::bs)
    .start (job.metadata b.key.region)::calls++groupCalls last gs

/-- Regions that no bin belongs to. -/
def emptyRegions (bins : List (RegionBin Binary32)) : List Int32 :=
  ((List.range job.regions.length).map Int32.ofNat).filter fun i =>
    !(bins.any fun b => b.key.region == i)

/-- All calls of a job: regions with bins as the partitions give them, then the empty ones. -/
def productCalls (partitions : List (List (RegionBin Binary32))) : List ProductCall :=
  job.groupCalls job.scheme.ensemble.fillVector (partitions.flatMap RegionBin.groups)++
    (job.emptyRegions partitions.flatten).flatMap fun i => [.start (job.metadata i),.finish]

end Job

end GlobeBins

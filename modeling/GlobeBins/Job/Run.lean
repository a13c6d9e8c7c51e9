import GlobeBins.Job
import GlobeBins.Files
import GlobeBins.Metrics

namespace GlobeBins

-- Zero as the core library has it.
attribute [local instance (high)] Zero.ofOfNat0

/-- Observations of a partition, given its name. -/
abbrev Source (m : Type → Type) := String → m (Except Fault (List (Except Fault Observation)))

/-- Partitions as files with an observation on each line. -/
def Source.ofFiles {m : Type → Type} [Monad m] (files : Files m) : Source m := fun name => do
  match ← files.read name with
  | .error f => return .error (.partition name f)
  | .ok content => return .ok (Observation.ofContent name content)

/-- What a job works with. -/
structure Surroundings (m : Type → Type) where
  source : Source m
  files : Files m
  sink : ProductSink m
  /-- Where bins are spilled; in memory if nowhere. -/
  spillDirectory : Option String

/-- Encoded spatial bins between two passes. -/
inductive Spill where
  | memory (content : Bytes)
  | file (path : String)

structure SpilledPartition where
  id : Nat
  spill : Spill
  counts : PassCounts

structure Summary where
  partitions : Nat
  observations : Nat
  skipped : Nat
  spatialBins : Nat
  temporalBins : Nat
  regionBins : Nat
  regions : Nat
  deriving DecidableEq

/-- How a run ended, and what it counted. -/
structure Outcome where
  result : Except Fault Summary
  events : List Event

namespace Job

/-- Partitions are numbered with at least five digits. -/
def spillName (id : String) (partition : Nat) : String :=
  let ds := Nat.toDigits 10 partition
  id++"-"++String.ofList (List.replicate (5-ds.length) '0'++ds)++".bin"

def spillPath (directory : String) (id : String) (partition : Nat) : String :=
  Files.join directory (spillName id partition)

section

variable {m : Type → Type} [Monad m] (job : Job) (s : Surroundings m)

def spill (id : Nat) (content : Bytes) : m (Except Fault Spill) := do
  match s.spillDirectory with
  | none => return .ok (.memory content)
  | some directory =>
    let path := spillPath directory job.id id
    match ← s.files.write path content with
    | .ok () => return .ok (.file path)
    | .error f => return .error (.io f)

/-- A partition that is binned counts even if it cannot be spilled. -/
def runPartition (id : Nat) (name : String) :
    m (Except Fault SpilledPartition × List Event) := do
  match (← s.source name) >>= job.binPartition with
  | .error f => return (.error f,[.failed])
  | .ok (bins,counts) =>
    let event := Event.partition (UInt64.ofNat counts.observations) (UInt64.ofNat counts.skipped)
      (UInt64.ofNat counts.bins)
    match job.spatialCodec.encodeSpatial bins with
    | .error f => return (.error f,[event])
    | .ok content =>
      match ← job.spill s id content with
      | .ok spill => return (.ok ⟨id,spill,counts⟩,[event])
      | .error f => return (.error f,[event])

/-- A file that cannot be removed is left where it is. -/
def discard : Spill → m Unit
  | .memory _ => pure ()
  | .file path => do
    let _ ← s.files.remove path

def recover : Spill → m (Except Fault Bytes)
  | .memory content => pure (.ok content)
  | .file path => do
    let content ← s.files.read path
    discard s (.file path)
    return content.mapError .io

/-- Reads spills back until one fails; the rest is discarded then. -/
def recoverAll :
    List SpilledPartition → m (Except Fault (List (SourceRecords (SpatialBin Binary32))))
  | [] => pure (.ok [])
  | p::ps => do
    match (← recover s p.spill) >>= job.spatialCodec.decodeSpatial with
    | .error f =>
      ps.forM fun p => discard s p.spill
      return .error f
    | .ok bins =>
      match ← recoverAll ps with
      | .error f => return .error f
      | .ok rest => return .ok (⟨p.id,bins⟩::rest)

def firstFault? {α : Type} (results : List (Except Fault α)) : Option Fault :=
  results.findSome? fun | .error f => some f | .ok _ => none

def successes {α : Type} (results : List (Except Fault α)) : List α :=
  results.filterMap fun | .ok x => some x | .error _ => none

/-- The passes after all partitions were spilled. -/
def runPasses (spilled : List SpilledPartition) : m Outcome := do
  match ← job.recoverAll s spilled with
  | .error f => return ⟨.error f,[]⟩
  | .ok sources =>
    let temporal := job.temporalPass sources
    let temporalBins := (temporal.map List.length).sum
    let merged := Event.bins "temporal" (UInt64.ofNat temporalBins)
    match job.regionPass temporal with
    | .error f => return ⟨.error f,[merged]⟩
    | .ok partitions =>
      let regionBins := (partitions.map List.length).sum
      let copied := Event.bins "region" (UInt64.ofNat regionBins)
      let summary : Summary := ⟨spilled.length,(spilled.map (·.counts.observations)).sum,
        (spilled.map (·.counts.skipped)).sum,(spilled.map (·.counts.bins)).sum,temporalBins,
        regionBins,job.regions.length⟩
      let written ← ProductCall.perform s.sink (job.productCalls partitions)
      return ⟨written.map fun _ => summary,[merged,copied]⟩

/-- Runs over numbered partitions, which are binned in the order given. Of several faults the one
of the lowest number counts. -/
def runNumbered (partitions : List (Nat × String)) : m Outcome := do
  let outcomes ← partitions.mapM fun p => do
    return (p.1,← job.runPartition s p.1 p.2)
  let events := outcomes.flatMap fun o => o.2.2
  let results := (outcomes.mergeSort fun a b => a.1 ≤ b.1).map fun o => o.2.1
  match firstFault? results with
  | some f =>
    (successes results).forM fun p => discard s p.spill
    return ⟨.error f,events⟩
  | none =>
    let outcome ← job.runPasses s (successes results)
    return ⟨outcome.result,events++outcome.events⟩

def run (partitions : List String) : m Outcome :=
  job.runNumbered s (partitions.zipIdx.map fun p => (p.2,p.1))

end

end Job

end GlobeBins

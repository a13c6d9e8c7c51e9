import GlobeBins.CommandLine
import GlobeBins.Job.Run
import GlobeBins.Product.Writer

namespace GlobeBins.Program

variable {m : Type → Type} [Monad m] (files : Files m)

/-- Makes a directory, if one is asked for. -/
def makeDirectory : Option String → m (Except Fault Unit)
  | none => pure (.ok ())
  | some directory => do return (← files.makeDirectories directory).mapError .io

def readSettings (path : String) : m (Except Fault Settings) := do
  match ← files.read path with
  | .error f => return .error (.io f)
  | .ok content =>
    match Text.ofBytes? content with
    | none => return .error (.io .invalidData)
    | some text => return Settings.ofText text

/-- Runs a job with products in a directory, and gives the paths of those that were finished. -/
def runJob (job : Job) (outputDirectory : String) (spillDirectory : Option String)
    (inputs : List String) : m (Outcome × List String) := do
  let s : Surroundings (StateT ProductWriter m) :=
    ⟨Source.ofFiles files.lift,files.lift,ProductWriter.sink files,spillDirectory⟩
  let (outcome,writer) ← (job.run s inputs).run (.inDirectory outputDirectory)
  return (outcome,writer.written)

def run (id : String) (a : Arguments) : m (Except Fault Summary) := do
  match (← readSettings files a.config) >>= Job.make id with
  | .error f => return .error f
  | .ok job =>
    match ← makeDirectory files a.spillDirectory with
    | .error f => return .error f
    | .ok () =>
      match ← makeDirectory files (some a.outputDirectory) with
      | .error f => return .error f
      | .ok () =>
        let (outcome,_) ← runJob files job a.outputDirectory a.spillDirectory a.inputs
        return outcome.result

/-- Success, a fault of the settings, or any other fault. -/
def exitCode : Except Fault Summary → UInt32
  | .ok _ => 0
  | .error f => if f.isConfiguration then 2 else 1

/-- Asking for help is no fault. -/
def usageExitCode (f : UsageFault) : UInt32 := if f = .displayHelp then 0 else 2

end GlobeBins.Program

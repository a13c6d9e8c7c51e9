import GlobeBins.Program

namespace GlobeBins.Main

def failure : IO.Error → IoFailure
  | .noFileOrDirectory _ _ _ => .notFound
  | .alreadyExists _ _ _ => .alreadyExists
  | .permissionDenied _ _ _ => .permissionDenied
  | .inappropriateType _ _ _ => .isADirectory
  | .resourceExhausted _ _ _ => .storageFull
  | .invalidArgument _ _ _ => .invalidFilename
  | _ => .other

def attempt {α : Type} (action : IO α) : IO (Except IoFailure α) := do
  try return .ok (← action)
  catch e => return .error (failure e)

/-- The files of the machine. -/
def files : Files IO where
  read path := attempt do return (← IO.FS.readBinFile path).toList
  write path content := attempt (IO.FS.writeBinFile path ⟨content.toArray⟩)
  remove path := attempt (IO.FS.removeFile path)
  makeDirectories path := attempt (IO.FS.createDirAll path)

/-- Hexadecimal digits in groups of 8, 4, 4, 4 and 12. -/
def grouped (s : List Char) : String :=
  String.ofList (s.take 8 ++ '-'::(s.drop 8).take 4 ++ '-'::(s.drop 12).take 4++
    '-'::(s.drop 16).take 4 ++ '-'::s.drop 20)

/-- A random job identifier. -/
def newId : IO String := do
  let n ← IO.rand 0 (2^128-1)
  let ds := Nat.toDigits 16 n
  return grouped (List.replicate (32-ds.length) '0'++ds)

def run (arguments : Arguments) : IO UInt32 := do
  let result ← Program.run files (← newId) arguments
  match result with
  | .ok _ => pure ()
  | .error f => IO.eprintln f.message
  return Program.exitCode result

end GlobeBins.Main

def main (arguments : List String) : IO UInt32 := do
  let names := ["BINNING_CONFIG","BINNING_OUTPUT_DIR","BINNING_THREADS","BINNING_SPILL_DIR",
    "BINNING_VERBOSE"]
  let values ← names.mapM fun name => do return (name,← IO.getEnv name)
  let environment := fun name => (values.lookup name).join
  match GlobeBins.CommandLine.parse environment arguments with
  | .ok a => GlobeBins.Main.run a
  | .error f =>
    if f = .displayHelp then IO.println GlobeBins.CommandLine.help
    else IO.eprintln GlobeBins.CommandLine.help
    return GlobeBins.Program.usageExitCode f

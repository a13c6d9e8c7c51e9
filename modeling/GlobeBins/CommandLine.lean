import GlobeBins.Text.Numeral

namespace GlobeBins

structure Arguments where
  config : String
  inputs : List String
  outputDirectory : String
  threads : Option Nat
  spillDirectory : Option String
  verbose : Bool
  deriving DecidableEq

inductive UsageFault where
  | displayHelp
  | unknownArgument
  | invalidValue
  | valueValidation
  | tooManyValues
  | argumentConflict
  | missingRequiredArgument
  deriving DecidableEq,Repr

/-- At least one thread works. -/
def Arguments.threadCount? (a : Arguments) : Option Nat := a.threads.map (max · 1)

namespace CommandLine

def help : String :=
  "Usage: binning --config <CONFIG> [OPTIONS] <INPUTS>...\n\n"++
  "  --config <CONFIG>          JSON job configuration [env: BINNING_CONFIG]\n"++
  "  --output-dir <OUTPUT_DIR>  Directory of the region products [env: BINNING_OUTPUT_DIR]\n"++
  "  --threads <THREADS>        Number of threads [env: BINNING_THREADS]\n"++
  "  --spill-dir <SPILL_DIR>    Directory of spilled bins [env: BINNING_SPILL_DIR]\n"++
  "  --verbose                  More log output [env: BINNING_VERBOSE]\n"++
  "  -h, --help                 This text"

/-- Options that take a value. -/
inductive Key where
  | config
  | outputDirectory
  | threads
  | spillDirectory
  deriving DecidableEq,Repr

def Key.names : List (String × Key) :=
  [("config",config),("output-dir",outputDirectory),("threads",threads),
    ("spill-dir",spillDirectory)]

/-- What an argument is by its look. -/
inductive Word where
  | option (key : Key) (attached : Option String)
  | verbose
  | help
  /-- A flag with a value, which flags do not take. -/
  | flagWithValue
  | unknown
  /-- Only inputs follow. -/
  | ending
  | plain
  deriving DecidableEq

def flagNames : List String := ["verbose","help"]

/-- `s` is what follows two hyphens. -/
def readLong (s : List Char) : Word :=
  let name := String.ofList (s.takeWhile (· ≠ '='))
  let attached := match s.dropWhile (· ≠ '=') with
    | _::value => some (String.ofList value)
    | [] => none
  match Key.names.lookup name with
  | some key => .option key attached
  | none =>
    if !flagNames.contains name then .unknown
    else if attached.isSome then .flagWithValue
    else if name = "help" then .help
    else .verbose

/-- A lone hyphen is a value like any other. -/
def read (argument : String) : Word :=
  match argument.toList with
  | ['-','-'] => .ending
  | '-' :: '-' :: s => readLong s
  | '-' :: 'h' :: _ => .help
  | '-' :: _ :: _ => .unknown
  | _ => .plain

/-- Arguments while they are being read. -/
structure Draft where
  config : Option String
  outputDirectory : Option String
  threads : Option Nat
  spillDirectory : Option String
  verbose : Bool
  inputs : List String
  /-- The option before, with its value if that has come. -/
  pending : Option (Key × Option String)

namespace Draft

def empty : Draft := ⟨none,none,none,none,false,[],none⟩

variable (d : Draft)

def has : Key → Bool
  | .config => d.config.isSome
  | .outputDirectory => d.outputDirectory.isSome
  | .threads => d.threads.isSome
  | .spillDirectory => d.spillDirectory.isSome

/-- Paths are not empty, and a number of threads is an unsigned word. -/
def set (key : Key) (value : String) : Except UsageFault Draft :=
  match key with
  | .threads =>
    match Text.natural? (2^64-1) value.toList with
    | some n => .ok {d with threads := some n}
    | none => .error .valueValidation
  | .config =>
    if value = "" then .error .invalidValue else .ok {d with config := some value}
  | .outputDirectory =>
    if value = "" then .error .invalidValue else .ok {d with outputDirectory := some value}
  | .spillDirectory =>
    if value = "" then .error .invalidValue else .ok {d with spillDirectory := some value}

/-- An option is given at most once. -/
def give (key : Key) (value : String) : Except UsageFault Draft :=
  if d.has key then .error .argumentConflict else d.set key value

/-- Settles the option before. -/
def settle : Except UsageFault Draft :=
  match d.pending with
  | none => .ok d
  | some (_,none) => .error .invalidValue
  | some (key,some value) => {d with pending := none}.give key value

def addInputs (inputs : List String) : Except UsageFault Draft := do
  let d ← d.settle
  return {d with inputs := d.inputs++inputs}

/-- Takes an argument that is no option. -/
def addPlain (argument : String) : Except UsageFault Draft :=
  match d.pending with
  | some (key,none) => .ok {d with pending := some (key,some argument)}
  | _ => d.addInputs [argument]

def add (argument : String) : Word → Except UsageFault Draft
  | .option key (some value) => do (← d.settle).give key value
  | .option key none => do return {← d.settle with pending := some (key,none)}
  | .verbose => do
    let d ← d.settle
    if d.verbose then .error .argumentConflict else .ok {d with verbose := true}
  | .help => do
    let _ ← d.settle
    .error .displayHelp
  | .flagWithValue => .error .tooManyValues
  | .unknown => .error .unknownArgument
  | .ending => .ok d
  | .plain => d.addPlain argument

def addAll (d : Draft) : List String → Except UsageFault Draft
  | [] => d.settle
  | a::rest =>
    match read a with
    | .ending => if rest.isEmpty then d.settle else d.addInputs rest
    | w => do addAll (← d.add a w) rest

/-- Takes an option from the environment unless it was given. -/
def fill (key : Key) (value : Option String) (d : Draft) : Except UsageFault Draft :=
  match value with
  | some value => if d.has key then .ok d else d.set key value
  | none => .ok d

def fillVerbose (value : Option String) (d : Draft) : Except UsageFault Draft :=
  if d.verbose then .ok d
  else
    match value with
    | none | some "false" => .ok d
    | some "true" => .ok {d with verbose := true}
    | some _ => .error .invalidValue

def finish (d : Draft) : Except UsageFault Arguments :=
  match d.config with
  | none => .error .missingRequiredArgument
  | some config =>
    if d.inputs.isEmpty then .error .missingRequiredArgument
    else .ok ⟨config,d.inputs,d.outputDirectory.getD "binning-output",d.threads,d.spillDirectory,
      d.verbose⟩

end Draft

/-- Reads the arguments; `environment` gives the values of its variables. -/
def parse (environment : String → Option String) (arguments : List String) :
    Except UsageFault Arguments := do
  let d ← Draft.empty.addAll arguments
  let d ← d.fill .config (environment "BINNING_CONFIG")
  let d ← d.fill .outputDirectory (environment "BINNING_OUTPUT_DIR")
  let d ← d.fill .threads (environment "BINNING_THREADS")
  let d ← d.fill .spillDirectory (environment "BINNING_SPILL_DIR")
  let d ← d.fillVerbose (environment "BINNING_VERBOSE")
  d.finish

end CommandLine

end GlobeBins

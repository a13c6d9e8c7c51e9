import GlobeBins.Fault
import GlobeBins.Text.Blank
import GlobeBins.Text.Numeral

namespace GlobeBins

/-- The parameters of a statistic, given as texts. Blanks around a value do not count. -/
structure Parameters where
  typeName : String
  entries : List (String × String)

namespace Parameters

variable {α : Type}

def raw? (p : Parameters) (name : String) : Option String :=
  (p.entries.find? (·.1 == name)).map Prod.snd

/-- The fault of a parameter, with the value as given. -/
def fault (p : Parameters) (name : String) (cause : ParameterFault) : Fault :=
  .parameter p.typeName name ((p.raw? name).getD "") cause

/-- The least of some names in the order of their characters. -/
def least? : List String → Option String
  | [] => none
  | name::names =>
    match least? names with
    | some other => some (if other < name then other else name)
    | none => some name

/-- Refuses parameters of other names; of several the first in alphabetical order is reported. -/
def checkKnown (p : Parameters) (known : List String) : Except Fault Unit :=
  match least? ((p.entries.map Prod.fst).filter fun name => !known.contains name) with
  | some name => .error (p.fault name .unknown)
  | none => .ok ()

def get? (p : Parameters) (read : List Char → Option α) (name : String) :
    Except Fault (Option α) :=
  match p.raw? name with
  | none => .ok none
  | some value =>
    match read (Text.trimChars value.toList) with
    | some x => .ok (some x)
    | none => .error (p.fault name .unparsed)

def getD (p : Parameters) (read : List Char → Option α) (name : String) (fallback : α) :
    Except Fault α :=
  (p.get? read name).map (·.getD fallback)

def require (p : Parameters) (read : List Char → Option α) (name : String) : Except Fault α := do
  match ← p.get? read name with
  | some x => .ok x
  | none => .error (p.fault name .missing)

def double? (s : List Char) : Option Binary64 :=
  (Text.Numeral.parse? s).map Text.Numeral.toBinary64

def single? (s : List Char) : Option Binary32 :=
  (Text.Numeral.parse? s).map Text.Numeral.toBinary32

/-- A signed integer of 32 bits. -/
def int32? (s : List Char) : Option Int := Text.integer? (-2^31) (2^31-1) s

def byte? (s : List Char) : Option Nat := Text.natural? 255 s

/-- An unsigned integer of 64 bits. -/
def word? (s : List Char) : Option Nat := Text.natural? (2^64-1) s

def text? (s : List Char) : Option String := some (String.ofList s)

end Parameters

/-- Feature names made of a variable's name and endings. -/
def featureNames (name : String) (endings : List String) : List String :=
  endings.map fun ending => name++"_"++ending

end GlobeBins

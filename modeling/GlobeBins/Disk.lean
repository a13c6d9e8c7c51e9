import GlobeBins.Files

namespace GlobeBins

-- Zero as the core library has it.
attribute [local instance (high)] Zero.ofOfNat0

inductive DiskEntry where
  | directory
  | file (content : Bytes)
  deriving DecidableEq

/-- Names from the root on. -/
abbrev DiskPath := List String

/-- Files in memory, perhaps with a limit on the bytes in all of them; a write that meets the limit
leaves what fits. -/
structure Disk where
  /-- The root itself has no entry. -/
  entries : List (DiskPath × DiskEntry)
  working : DiskPath
  limit : Option Nat

namespace Disk

/-- The root is the working directory. -/
def empty : Disk := ⟨[],[],none⟩

/-- Names between slashes; `reversed` holds the current one backwards. -/
def namesFrom (reversed : List Char) : List Char → List String
  | [] => [String.ofList reversed.reverse]
  | c::cs =>
    if c = '/' then String.ofList reversed.reverse::namesFrom [] cs else namesFrom (c::reversed) cs

def names (path : String) : List String := namesFrom [] path.toList

/-- Most bytes that a path may have. -/
def maxPath : Nat := 4095

/-- Most bytes that a name may have. -/
def maxName : Nat := 255

variable (d : Disk)

def lookup? (p : DiskPath) : Option DiskEntry :=
  if p = [] then some .directory else (d.entries.find? (·.1 == p)).map Prod.snd

def put (p : DiskPath) (e : DiskEntry) : Disk :=
  {d with entries := d.entries.filter (·.1 ≠ p)++[(p,e)]}

def delete (p : DiskPath) : Disk := {d with entries := d.entries.filter (·.1 ≠ p)}

def size : DiskEntry → Nat
  | .directory => 0
  | .file content => content.length

/-- Bytes in all files but one. -/
def usedWithout (p : DiskPath) : Nat := ((d.entries.filter (·.1 ≠ p)).map fun e => size e.2).sum

/-- Where a path leads. -/
inductive Place where
  /-- A directory, by a step that has no name. -/
  | directory (p : DiskPath)
  /-- A name in a directory, whether it is there or not; a slash after it asks for a directory. -/
  | entry (p : DiskPath) (slash : Bool)
  deriving DecidableEq

/-- Goes on from a directory. -/
def walk (here : DiskPath) : List String → Except IoFailure Place
  | [] => .ok (.directory here)
  | name::rest =>
    if name = "" ∨ name = "." then walk here rest
    else if name = ".." then walk here.dropLast rest
    else if maxName < name.utf8ByteSize then .error .invalidFilename
    else if rest.all (· = "") then .ok (.entry (here++[name]) !rest.isEmpty)
    else
      match d.lookup? (here++[name]) with
      | some .directory => walk (here++[name]) rest
      | some (.file _) => .error .notADirectory
      | none => .error .notFound

/-- Where a path begins. -/
def origin (names : List String) : DiskPath := if names.head? = some "" then [] else d.working

def place (path : String) : Except IoFailure Place :=
  if path = "" then .error .notFound
  else if maxPath < path.utf8ByteSize then .error .invalidFilename
  else d.walk (d.origin (names path)) (names path)

def read (path : String) : Except IoFailure Bytes :=
  match d.place path with
  | .error f => .error f
  | .ok (.directory _) => .error .isADirectory
  | .ok (.entry p slash) =>
    match d.lookup? p with
    | some (.file content) => if slash then .error .notADirectory else .ok content
    | some .directory => .error .isADirectory
    | none => .error .notFound

/-- Puts as much of a content into a file as there is room for. -/
def store (p : DiskPath) (content : Bytes) : Except IoFailure Unit × Disk :=
  match d.limit with
  | none => (.ok (),d.put p (.file content))
  | some limit =>
    let room := limit-d.usedWithout p
    (if content.length ≤ room then .ok () else .error .storageFull,
      d.put p (.file (content.take room)))

def write (path : String) (content : Bytes) : Except IoFailure Unit × Disk :=
  match d.place path with
  | .error f => (.error f,d)
  | .ok (.directory _) => (.error .isADirectory,d)
  | .ok (.entry p slash) =>
    if slash || d.lookup? p = some .directory then (.error .isADirectory,d) else d.store p content

def remove (path : String) : Except IoFailure Unit × Disk :=
  match d.place path with
  | .error f => (.error f,d)
  | .ok (.directory _) => (.error .isADirectory,d)
  | .ok (.entry p slash) =>
    match d.lookup? p with
    | some (.file _) => if slash then (.error .notADirectory,d) else (.ok (),d.delete p)
    | some .directory => (.error .isADirectory,d)
    | none => (.error .notFound,d)

/-- Makes the directory that the names lead to from `here`, if it is not there. -/
def makeDirectory (here : DiskPath) (names : List String) : Except IoFailure Unit × Disk :=
  match d.walk here names with
  | .error f => (.error f,d)
  | .ok (.directory _) => (.ok (),d)
  | .ok (.entry p _) =>
    match d.lookup? p with
    | some .directory => (.ok (),d)
    | some (.file _) => (.error .alreadyExists,d)
    | none => (.ok (),d.put p .directory)

/-- Makes the directory of the first names. If the way to it is not there, those of the others, which
are parts of the way, are made before. -/
def makeFirst (here : DiskPath) (d : Disk) : List (List String) → Except IoFailure Unit × Disk
  | [] => (.ok (),d)
  | names::above =>
    match d.makeDirectory here names with
    | (.error .notFound,d) =>
      match makeFirst here d above with
      | (.ok (),d) => d.makeDirectory here names
      | outcome => outcome
    | outcome => outcome

/-- All parts of a way, the longest one first, without the way itself. -/
def above (names : List String) : List (List String) :=
  let steps := names.filter fun name => name ≠ "" ∧ name ≠ "."
  ((List.range steps.length).map steps.take).reverse

/-- Parts of the way are made as they are met, so a step back may follow a name that is new. -/
def makeDirectories (path : String) : Except IoFailure Unit × Disk :=
  if path = "" then (.ok (),d)
  else if maxPath < path.utf8ByteSize then (.error .invalidFilename,d)
  else makeFirst (d.origin (names path)) d (names path::above (names path))

/-- Names of the files in a directory, in order; none if there is no such directory. -/
def filesIn? (p : DiskPath) : Option (List String) :=
  if d.lookup? p = some .directory then
    let names := d.entries.filterMap fun e =>
      match e.2 with
      | .file _ => if e.1.dropLast = p then e.1.getLast? else none
      | .directory => none
    some (names.mergeSort fun a b => a ≤ b)
  else none

/-- A disk as files for programs whose state it is. -/
def files : Files (StateM Disk) where
  read path := do return (← get).read path
  write path content := fun d => d.write path content
  remove path := fun d => d.remove path
  makeDirectories path := fun d => d.makeDirectories path

theorem lookup?_put (p : DiskPath) (e : DiskEntry) (h : p ≠ []) :
    (d.put p e).lookup? p = some e := by
  rw [lookup?,if_neg h,put,List.find?_append]
  have k : List.find? (fun x => x.1 == p) (d.entries.filter fun x => decide (x.1 ≠ p)) = none := by
    simp [List.find?_eq_none]
  rw [k]
  simp

end Disk

end GlobeBins

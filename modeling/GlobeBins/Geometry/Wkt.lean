import GlobeBins.Geometry.Orientation
import GlobeBins.Geometry.Polygon
import GlobeBins.Text.Numeral

namespace GlobeBins.Wkt

inductive Token where
  | opening
  | closing
  | comma
  | number (x : Binary64)
  | word (s : List Char)
  /-- Begins like a number and is none. -/
  | bad
  deriving DecidableEq

def isBlank (c : Char) : Bool := c == ' ' || c == '\t' || c == '\r' || c == '\n'

/-- Characters that a number or a word goes on with. -/
def goesOn (c : Char) : Bool := !(isBlank c || c == '(' || c == ')' || c == ',')

def begins (c : Char) : Bool := c.isDigit || c == '.' || c == '-' || c == '+'

/-- A plus sign in front of a number does not count. -/
def numberToken (s : List Char) : Token :=
  let body := match s with | '+'::r => r | r => r
  match Text.Numeral.parse? body with
  | some n => .number n.toBinary64
  | none => .bad

/-- A number or a word, unless there are no characters. -/
def longToken : List Char → List Token
  | [] => []
  | c::cs => if begins c then [numberToken (c::cs)] else [.word (c::cs)]

def markToken (c : Char) : List Token :=
  if c = '(' then [.opening] else if c = ')' then [.closing] else if c = ',' then [.comma] else []

/-- `reversed` holds the current number or word backwards. -/
def tokensFrom (reversed : List Char) : List Char → List Token
  | [] => longToken reversed.reverse
  | c::cs =>
    if goesOn c then tokensFrom (c::reversed) cs
    else longToken reversed.reverse++markToken c++tokensFrom [] cs

/-- A NUL ends the text. -/
def tokens (s : String) : List Token :=
  tokensFrom [] (s.toList.takeWhile (· ≠ '\x00'))

inductive Kind where
  | point
  | line
  | polygon
  | points
  | lines
  | polygons
  | collection
  deriving DecidableEq

def kindNames : List (String × Kind) :=
  [("POINT",.point),("LINESTRING",.line),("POLYGON",.polygon),("MULTIPOINT",.points),
    ("MULTILINESTRING",.lines),("MULTIPOLYGON",.polygons),("GEOMETRYCOLLECTION",.collection)]

/-- Dimension marks and how many numbers a coordinate has with them. -/
def marks : List (String × Nat) := [("Z",3),("M",3),("ZM",4)]

/-- Words count in any case. -/
def reads (s : List Char) (word : String) : Bool := s.map Char.toUpper == word.toList

/-- A type name, and the numbers per coordinate if the name says so. The other name of a line has no
mark of its own. -/
def kind? (s : List Char) : Option (Kind × Option Nat) :=
  if reads s "LINEARRING" then some (.line,none)
  else
    kindNames.findSome? fun k =>
      if reads s k.1 then some (k.2,none)
      else (marks.find? fun m => reads s (k.1++m.1)).map fun m => (k.2,some m.2)

/-- Takes something from the front of the tokens. -/
abbrev Parse (α : Type) := List Token → Option (α × List Token)

def expect (t : Token) : Parse Unit
  | u::ts => if u = t then some ((),ts) else none
  | [] => none

/-- Items with commas between them. Every round takes a comma, so the number of tokens is fuel
enough. -/
def separatedFrom {α : Type} (item : Parse α) : Nat → Parse (List α)
  | 0,_ => none
  | fuel+1,ts => do
    let (x,ts) ← item ts
    match ts with
    | .comma::rest =>
      let (xs,ts) ← separatedFrom item fuel rest
      return (x::xs,ts)
    | ts => return ([x],ts)

def separated {α : Type} (item : Parse α) : Parse (List α) := fun ts =>
  separatedFrom item (ts.length+1) ts

/-- A body in parentheses, or the word EMPTY. -/
def enclosed {α : Type} (empty : α) (body : Parse α) : Parse α
  | .opening::ts => do
    let (x,ts) ← body ts
    let (_,ts) ← expect .closing ts
    return (x,ts)
  | .word s::ts => if reads s "EMPTY" then some (empty,ts) else none
  | _ => none

def numbers : Nat → Parse (List Binary64)
  | 0,ts => some ([],ts)
  | n+1,.number x::ts => do
    let (xs,ts) ← numbers n ts
    return (x::xs,ts)
  | _+1,_ => none

/-- Numbers after the second one are dropped. -/
def coordinate (dimension : Nat) : Parse (Point Binary64) := fun ts => do
  match ← numbers dimension ts with
  | (x::y::_,ts) => return (⟨x,y⟩,ts)
  | _ => none

def path (dimension : Nat) : Parse (List (Point Binary64)) :=
  enclosed [] (separated (coordinate dimension))

/-- The first ring is the outer one. -/
def ofRings {κ : Type} [Coordinate κ] : List (Ring κ) → Polygon κ
  | [] => ⟨[],[]⟩
  | outer::holes => ⟨outer.close,holes.map Ring.close⟩

def polygon (dimension : Nat) : Parse (Polygon Binary64) := fun ts => do
  let (rings,ts) ← enclosed [] (separated (path dimension)) ts
  return (ofRings rings,ts)

/-- Points of a set may stand in parentheses of their own. -/
def member (dimension : Nat) : Parse (Point Binary64)
  | .opening::ts => enclosed default (coordinate dimension) (.opening::ts)
  | ts => coordinate dimension ts

/-- Numbers per coordinate, unless the type name gave them: a mark of its own, or two. -/
def dimension (given : Option Nat) : Parse Nat := fun ts =>
  match given with
  | some n => some (n,ts)
  | none =>
    match ts with
    | .word s::rest =>
      match marks.find? fun m => reads s m.1 with
      | some m => some (m.2,rest)
      | none => if reads s "EMPTY" then some (2,ts) else none
    | .bad::_ => none
    | [] => none
    | ts => some (2,ts)

/-- An area, or a geometry without one. -/
inductive Geometry where
  | area (polygons : List (Polygon Binary64))
  | other
  deriving DecidableEq

/-- Replaces what was parsed by a geometry without area. -/
def plain {α : Type} (p : Parse α) : Parse Geometry := fun ts => do
  let (_,ts) ← p ts
  return (.other,ts)

/-- A geometry that begins with its type. A nested geometry takes at least one token, so the number
of tokens is fuel enough. -/
def geometryFrom : Nat → Parse Geometry
  | 0,_ => none
  | fuel+1,.word s::ts => do
    let (kind,given) ← kind? s
    let (n,ts) ← dimension given ts
    match kind with
    | .point => plain (enclosed default (coordinate n)) ts
    | .line => plain (path n) ts
    | .polygon =>
      let (g,ts) ← polygon n ts
      return (.area [g],ts)
    | .points => plain (enclosed [] (separated (member n))) ts
    | .lines => plain (enclosed [] (separated (path n))) ts
    | .polygons =>
      let (gs,ts) ← enclosed [] (separated (polygon n)) ts
      return (.area gs,ts)
    | .collection => plain (enclosed [] (separated (geometryFrom fuel))) ts
  | _+1,_ => none

def parse? (s : String) : Option Geometry :=
  let ts := tokens s
  (geometryFrom (ts.length+1) ts).map Prod.fst

end GlobeBins.Wkt

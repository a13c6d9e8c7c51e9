import GlobeBins.Json.Tree

namespace GlobeBins.Json

/-- Why a text is not what a reader expects. -/
inductive Problem where
  | missingField (name : String)
  | unknownField (name : String)
  | duplicateField (name : String)
  | unknownVariant (name : String)
  | malformed
  deriving DecidableEq,Repr

def Problem.reason : Problem → String
  | missingField name => "missing field `"++name++"`"
  | unknownField name => "unknown field `"++name++"`"
  | duplicateField name => "duplicate field `"++name++"`"
  | unknownVariant name => "unknown variant `"++name++"`"
  | malformed => "malformed"

abbrev Reader (α : Type) := Tree → Except Problem α

mutual

/-- Nothing broke inside the tree. -/
def Tree.wellFormed : Tree → Bool
  | .null | .bool _ | .number _ | .text _ => true
  | .array items closed => wellFormedItems items && closed
  | .object members closed => wellFormedMembers members && closed
  | .broken => false

def wellFormedItems : List Tree → Bool
  | [] => true
  | t::ts => t.wellFormed && wellFormedItems ts

def wellFormedMembers : List (Option String × Tree) → Bool
  | [] => true
  | m::ms => m.2.wellFormed && wellFormedMembers ms

end

/-- Accepts any value whose text is JSON. -/
def Reader.skip : Reader Unit := fun t => if t.wellFormed then .ok () else .error .malformed

def Reader.text : Reader String
  | .text (some s) => .ok s
  | _ => .error .malformed

/-- An integer literal of a 64 bit word. -/
def Reader.word : Reader Nat
  | .number n =>
    if n.plain && !n.negative && decide (n.digits < 2^64) then .ok n.digits else .error .malformed
  | _ => .error .malformed

def Literal.toBinary64 (n : Literal) : Binary64 := Binary64.ofDecimal n.negative n.digits n.exponent

/-- Any number in the range of the doubles. -/
def Reader.double : Reader Binary64
  | .number n => if n.toBinary64.isFinite then .ok n.toBinary64 else .error .malformed
  | _ => .error .malformed

/-- The literal is a signed or unsigned 64 bit integer. Minus zero is none. -/
def Literal.isWord (n : Literal) : Bool :=
  n.plain &&
    if n.negative then n.digits ≠ 0 && decide (n.digits ≤ 2^63) else decide (n.digits < 2^64)

/-- Integers are rounded once; any other number is rounded to a double first. -/
def Reader.single : Reader Binary32
  | .number n =>
    if n.isWord then .ok (Binary32.ofDecimal n.negative n.digits 0)
    else if n.toBinary64.isFinite then .ok (Binary32.ofDouble n.toBinary64)
    else .error .malformed
  | _ => .error .malformed

def Reader.list {α : Type} (item : Reader α) : Reader (List α)
  | .array items closed => do
    let xs ← items.mapM item
    if closed then .ok xs else .error .malformed
  | _ => .error .malformed

def Reader.pair {α : Type} (item : Reader α) : Reader (α × α)
  | .array items closed => do
    match ← items.mapM item with
    | [x,y] => if closed then .ok (x,y) else .error .malformed
    | _ => .error .malformed
  | _ => .error .malformed

def Reader.nullable {α : Type} (value : Reader α) : Reader (Option α)
  | .null => .ok none
  | t => some <$> value t

def Reader.null : Reader Unit
  | .null => .ok ()
  | _ => .error .malformed

/-- What a value of a sum is written as: a bare name, or a name with its content. -/
def Reader.variant {α : Type} (names : List String) (bare : String → Option α)
    (content : String → Reader α) : Reader α
  | .text (some name) =>
    if names.contains name then
      match bare name with
      | some x => .ok x
      | none => .error .malformed
    else .error (.unknownVariant name)
  | .object ((some name,t)::rest) closed =>
    if names.contains name then do
      let x ← content name t
      if rest.isEmpty && closed then .ok x else .error .malformed
    else .error (.unknownVariant name)
  | _ => .error .malformed

/-- Members in text order. A later member of the same name takes the place of an earlier one. -/
def Reader.table : Reader (List (String × String))
  | .object members closed => do
    let entries ← members.mapM fun m =>
      match m.1 with
      | some key => do .ok (key,← Reader.text m.2)
      | none => .error .malformed
    if closed then
      .ok (entries.foldl (fun table e => table.filter (·.1 ≠ e.1)++[e]) [])
    else .error .malformed
  | _ => .error .malformed

/-- One field of a record that is being read into `σ`. -/
structure Field (σ : Type) where
  name : String
  /-- The field has been read before. -/
  present : σ → Bool
  read : σ → Reader σ
  /-- An object without the field is still a record. -/
  optional : Bool
  /-- An array of the fields in order may end before this one. -/
  trailing : Bool

namespace Field

variable {σ α : Type}

def required (name : String) (get : σ → Option α) (set : σ → α → σ) (value : Reader α) : Field σ :=
  ⟨name,fun s => (get s).isSome,fun s t => set s <$> value t,false,false⟩

/-- The field has a default, which also stands in for it at the end of an array. -/
def defaulted (name : String) (get : σ → Option α) (set : σ → α → σ) (value : Reader α) : Field σ :=
  ⟨name,fun s => (get s).isSome,fun s t => set s <$> value t,true,true⟩

/-- The field may be null, and is so when an object lacks it. -/
def nullable (name : String) (get : σ → Option (Option α)) (set : σ → Option α → σ)
    (value : Reader α) : Field σ :=
  ⟨name,fun s => (get s).isSome,fun s t => set s <$> Reader.nullable value t,true,false⟩

end Field

/-- Reads one member. Names are settled before the content is looked at. -/
def readMember {σ : Type} (fields : List (Field σ)) (strict : Bool) (s : σ)
    (m : Option String × Tree) : Except Problem σ :=
  match m.1 with
  | none => .error .malformed
  | some key =>
    match fields.find? (·.name == key) with
    | none =>
      if strict then .error (.unknownField key)
      else do
        Reader.skip m.2
        .ok s
    | some f => if f.present s then .error (.duplicateField key) else f.read s m.2

def readItems {σ : Type} : List (Field σ) → σ → List Tree → Bool → Except Problem σ
  | [],s,items,closed => if items.isEmpty && closed then .ok s else .error .malformed
  | f::fs,s,[],closed =>
    if closed && f.trailing then readItems fs s [] closed else .error .malformed
  | f::fs,s,t::ts,closed => do readItems fs (← f.read s t) ts closed

/-- A record is an object, or an array of its fields in order. A strict one knows all its fields. -/
def readRecord {σ : Type} (fields : List (Field σ)) (strict : Bool) (empty : σ) : Reader σ
  | .object members closed => do
    let s ← members.foldlM (readMember fields strict) empty
    if closed then
      match fields.find? fun f => !f.optional && !f.present s with
      | some f => .error (.missingField f.name)
      | none => .ok s
    else .error .malformed
  | .array items closed => readItems fields empty items closed
  | _ => .error .malformed

/-- A whole text. What follows the value is looked at last. -/
def decode {α : Type} (value : Reader α) (s : String) : Except Problem α := do
  let (t,clean) := parse s.toList
  let x ← value t
  if clean then .ok x else .error .malformed

end GlobeBins.Json

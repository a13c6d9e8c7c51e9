import GlobeBins.Json.Decode
import GlobeBins.Numeric.Shortest

namespace GlobeBins.Json

/-- JSON values. Members keep their order. -/
inductive Value where
  | null
  | bool (b : Bool)
  | integer (n : Int)
  | single (x : Binary32)
  | double (x : Binary64)
  | text (s : String)
  | array (items : List Value)
  | object (members : List (String × Value))
  deriving Inhabited

/-- Decimal exponents written without an exponent part. -/
structure Layout where
  least : Int
  greatest : Int

def Layout.single : Layout := ⟨-6,12⟩

def Layout.double : Layout := ⟨-5,15⟩

def zeros (n : Nat) : List Char := List.replicate n '0'

/-- A point is always written in positional text, and the sign of an exponent always. -/
def Layout.render (L : Layout) (digits : Nat) (exponent : Int) : List Char :=
  let ds := Nat.toDigits 10 digits
  let lead : Int := ds.length-1+exponent
  if L.least ≤ lead ∧ lead ≤ L.greatest then
    if 0 ≤ exponent then ds++zeros exponent.toNat++['.','0']
    else if 0 ≤ lead then ds.take (lead.toNat+1) ++ '.'::ds.drop (lead.toNat+1)
    else ['0','.']++zeros (-lead-1).toNat++ds
  else
    let fraction := if ds.length = 1 then [] else '.'::ds.drop 1
    let sign := if lead < 0 then '-' else '+'
    ds.take 1++fraction ++ 'e'::sign::Nat.toDigits 10 lead.natAbs

def renderFloat (F : Format) (L : Layout) (negative : Bool) (magnitude : Nat) : List Char :=
  if F.infinity ≤ magnitude then ['n','u','l','l']
  else
    let body := if magnitude = 0 then ['0','.','0']
      else let (digits,exponent) := F.shortest magnitude; L.render digits exponent
    if negative then '-'::body else body

def escapeChar (c : Char) : List Char :=
  if c = '"' ∨ c = '\\' then ['\\',c]
  else if c = '\x08' then ['\\','b']
  else if c = '\t' then ['\\','t']
  else if c = '\n' then ['\\','n']
  else if c = '\x0c' then ['\\','f']
  else if c = '\r' then ['\\','r']
  else if c.toNat < 0x20 then
    ['\\','u','0','0',Nat.digitChar (c.toNat/16),Nat.digitChar (c.toNat%16)]
  else [c]

def renderText (s : String) : List Char := '"'::s.toList.flatMap escapeChar++['"']

def renderInt (n : Int) : List Char :=
  if n < 0 then '-'::Nat.toDigits 10 n.natAbs else Nat.toDigits 10 n.natAbs

mutual

def Value.chars : Value → List Char
  | .null => ['n','u','l','l']
  | .bool true => ['t','r','u','e']
  | .bool false => ['f','a','l','s','e']
  | .integer n => renderInt n
  | .single x => renderFloat Format.single Layout.single x.isNegative x.magnitude
  | .double x => renderFloat Format.double Layout.double x.isNegative x.magnitude
  | .text s => renderText s
  | .array items => '['::itemChars items
  | .object members => '\x7b'::memberChars members

/-- Items with the closing bracket. -/
def itemChars : List Value → List Char
  | [] => [']']
  | [v] => v.chars++[']']
  | v::vs => v.chars ++ ','::itemChars vs

def memberChars : List (String × Value) → List Char
  | [] => ['\x7d']
  | [m] => renderText m.1 ++ ':'::m.2.chars++['\x7d']
  | m::ms => renderText m.1 ++ ':'::m.2.chars ++ ','::memberChars ms

end

def Value.render (v : Value) : String := String.ofList v.chars

/-- The values that any JSON text stands for. -/
def Literal.toValue? (n : Literal) : Option Value :=
  if n.isWord then some (.integer (if n.negative then -(n.digits : Int) else n.digits))
  else if n.toBinary64.isFinite then some (.double n.toBinary64)
  else none

/-- The last member of a name counts. -/
def putMember (members : List (String × Value)) (key : String) (v : Value) :
    List (String × Value) :=
  members.filter (·.1 ≠ key)++[(key,v)]

mutual

/-- `depth` is the number of containers that may still be opened. -/
def Value.ofTree (depth : Nat) : Reader Value
  | .null => .ok .null
  | .bool b => .ok (.bool b)
  | .number n =>
    match n.toValue? with
    | some v => .ok v
    | none => .error .malformed
  | .text (some s) => .ok (.text s)
  | .text none => .error .malformed
  | .array items closed =>
    match depth with
    | 0 => .error .malformed
    | depth+1 => do
      let vs ← valuesOfTrees depth items
      if closed then .ok (.array vs) else .error .malformed
  | .object members closed =>
    match depth with
    | 0 => .error .malformed
    | depth+1 => do
      let ms ← membersOfTrees depth members
      if closed then .ok (.object (ms.foldl (fun table m => putMember table m.1 m.2) []))
      else .error .malformed
  | .broken => .error .malformed

def valuesOfTrees (depth : Nat) : List Tree → Except Problem (List Value)
  | [] => .ok []
  | t::ts => do
    let v ← Value.ofTree depth t
    return v::(← valuesOfTrees depth ts)

def membersOfTrees (depth : Nat) :
    List (Option String × Tree) → Except Problem (List (String × Value))
  | [] => .ok []
  | m::ms =>
    match m.1 with
    | none => .error .malformed
    | some key => do
      let v ← Value.ofTree depth m.2
      return (key,v)::(← membersOfTrees depth ms)

end

/-- Any JSON text of at most 127 nested containers. -/
def Value.parse (s : String) : Except Problem Value := decode (Value.ofTree 127) s

end GlobeBins.Json

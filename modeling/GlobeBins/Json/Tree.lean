import GlobeBins.Text.Numeral

namespace GlobeBins.Json

/-- A number as written: its digits without the point, and the power of ten that goes with them. -/
structure Literal where
  negative : Bool
  digits : Nat
  exponent : Int
  /-- No fraction and no exponent are written. -/
  plain : Bool
  deriving DecidableEq,Repr

/-- A text is `none` when an escape in it is half of a surrogate pair. A container is closed when
its closing bracket was reached; `broken` stands where no value could be read. -/
inductive Tree where
  | null
  | bool (b : Bool)
  | number (literal : Literal)
  | text (s : Option String)
  | array (items : List Tree) (closed : Bool)
  | object (members : List (Option String × Tree)) (closed : Bool)
  | broken
  deriving Inhabited

def isBlank (c : Char) : Bool := c == ' ' || c == '\t' || c == '\n' || c == '\r'

def skipBlank (s : List Char) : List Char := s.dropWhile isBlank

/-- The rest of the text after `word`. -/
def afterWord? : List Char → List Char → Option (List Char)
  | [],s => some s
  | c::word,d::s => if c = d then afterWord? word s else none
  | _::_,[] => none

def hexValue? (c : Char) : Option Nat :=
  if c.isDigit then some (c.toNat-48)
  else if 'a' ≤ c ∧ c ≤ 'f' then some (c.toNat-87)
  else if 'A' ≤ c ∧ c ≤ 'F' then some (c.toNat-55)
  else none

def hexUnit? (a b c d : Char) : Option Nat := do
  return 4096*(← hexValue? a)+256*(← hexValue? b)+16*(← hexValue? c)+(← hexValue? d)

def simpleEscape? : Char → Option Char
  | '"' => some '"'
  | '\\' => some '\\'
  | '/' => some '/'
  | 'b' => some '\x08'
  | 'f' => some '\x0c'
  | 'n' => some '\n'
  | 'r' => some '\r'
  | 't' => some '\t'
  | _ => none

def isHighSurrogate (n : Nat) : Bool := 0xd800 ≤ n && n ≤ 0xdbff

def isLowSurrogate (n : Nat) : Bool := 0xdc00 ≤ n && n ≤ 0xdfff

/-- The character that two halves of a surrogate pair stand for. -/
def joinSurrogates (high low : Nat) : Char :=
  Char.ofNat (0x10000+(high-0xd800)*0x400+(low-0xdc00))

/-- Text up to the closing quote. `high` is the first half of a surrogate pair that has just been
read, and `paired` falls when half a pair stands alone. -/
def stringFrom (reversed : List Char) (high : Option Nat) (paired : Bool) :
    List Char → Option (Option String × List Char)
  | '"'::rest =>
    some (if paired && high.isNone then some (String.ofList reversed.reverse) else none,rest)
  | '\\' :: 'u'::a::b::c::d::rest =>
    match hexUnit? a b c d with
    | none => none
    | some n =>
      if isHighSurrogate n then stringFrom reversed (some n) (paired && high.isNone) rest
      else if isLowSurrogate n then
        match high with
        | some m => stringFrom (joinSurrogates m n::reversed) none paired rest
        | none => stringFrom reversed none false rest
      else stringFrom (Char.ofNat n::reversed) none (paired && high.isNone) rest
  | '\\'::c::rest =>
    match simpleEscape? c with
    | some e => stringFrom (e::reversed) none (paired && high.isNone) rest
    | none => none
  | c::rest =>
    if c.toNat < 0x20 ∨ c = '\\' then none
    else stringFrom (c::reversed) none (paired && high.isNone) rest
  | [] => none

/-- The power of ten after the letter e. Without that letter it is 0 and nothing is read. -/
def exponentFrom (s : List Char) : Option (Int × Bool × List Char) :=
  match s with
  | c::rest =>
    if c = 'e' ∨ c = 'E' then
      let (negative,body) := match rest with
        | '-'::r => (true,r)
        | '+'::r => (false,r)
        | r => (false,r)
      let ds := body.takeWhile Char.isDigit
      if ds = [] then none
      else
        let n : Int := Text.digitsValue ds
        some (if negative then -n else n,true,body.dropWhile Char.isDigit)
    else some (0,false,s)
  | [] => some (0,false,s)

/-- No leading zeros, and at least one digit on both sides of a point. -/
def numberFrom (s : List Char) : Option (Literal × List Char) :=
  let (negative,s) := match s with
    | '-'::r => (true,r)
    | r => (false,r)
  let whole := match s with
    | '0'::_ => ['0']
    | r => r.takeWhile Char.isDigit
  let rest := s.drop whole.length
  let fraction := match rest with
    | '.'::r => r.takeWhile Char.isDigit
    | _ => []
  let pointed := match rest with
    | '.'::_ => true
    | _ => false
  let rest := if pointed then rest.drop (1+fraction.length) else rest
  if whole = [] ∨ (pointed ∧ fraction = []) then none
  else
    match exponentFrom rest with
    | none => none
    | some (e,written,rest) =>
      some (⟨negative,Text.digitsValue (whole++fraction),e-fraction.length,!pointed && !written⟩,
        rest)

/-- A tree and what follows it; `none` if the text broke inside. -/
abbrev Parsed (α : Type) := α × Option (List Char)

def leaf (t : Tree) : Option (List Char) → Parsed Tree
  | some rest => (t,some rest)
  | none => (.broken,none)

mutual

def valueFrom : Nat → List Char → Parsed Tree
  | 0,_ => (.broken,none)
  | fuel+1,s =>
    match skipBlank s with
    | 'n'::r => leaf .null (afterWord? ['u','l','l'] r)
    | 't'::r => leaf (.bool true) (afterWord? ['r','u','e'] r)
    | 'f'::r => leaf (.bool false) (afterWord? ['a','l','s','e'] r)
    | '"'::r =>
      match stringFrom [] none true r with
      | some (t,rest) => (.text t,some rest)
      | none => (.broken,none)
    | '['::r =>
      match skipBlank r with
      | ']'::rest => (.array [] true,some rest)
      | r =>
        let (items,rest) := itemsFrom fuel [] r
        (.array items rest.isSome,rest)
    | '{'::r =>
      match skipBlank r with
      | '}'::rest => (.object [] true,some rest)
      | r =>
        let (members,rest) := membersFrom fuel [] r
        (.object members rest.isSome,rest)
    | r =>
      match numberFrom r with
      | some (n,rest) => (.number n,some rest)
      | none => (.broken,none)

def itemsFrom : Nat → List Tree → List Char → Parsed (List Tree)
  | 0,reversed,_ => (reversed.reverse,none)
  | fuel+1,reversed,s =>
    match valueFrom fuel s with
    | (t,none) => ((t::reversed).reverse,none)
    | (t,some r) =>
      match skipBlank r with
      | ','::rest => itemsFrom fuel (t::reversed) rest
      | ']'::rest => ((t::reversed).reverse,some rest)
      | _ => ((t::reversed).reverse,none)

def membersFrom : Nat → List (Option String × Tree) → List Char →
    Parsed (List (Option String × Tree))
  | 0,reversed,_ => (reversed.reverse,none)
  | fuel+1,reversed,s =>
    match skipBlank s with
    | '"'::r =>
      match stringFrom [] none true r with
      | none => (reversed.reverse,none)
      | some (key,r) =>
        match skipBlank r with
        | ':'::r =>
          match valueFrom fuel r with
          | (t,none) => (((key,t)::reversed).reverse,none)
          | (t,some r) =>
            match skipBlank r with
            | ','::rest => membersFrom fuel ((key,t)::reversed) rest
            | '}'::rest => (((key,t)::reversed).reverse,some rest)
            | _ => (((key,t)::reversed).reverse,none)
        | _ => (((key,.broken)::reversed).reverse,none)
    | _ => (reversed.reverse,none)

end

/-- A whole text: its tree, and whether only blanks follow. Every step reads a character or opens a
container, so twice the length is fuel enough. -/
def parse (s : List Char) : Tree × Bool :=
  let (t,rest) := valueFrom (2*s.length+2) s
  (t,match rest with | some r => (skipBlank r).isEmpty | none => false)

end GlobeBins.Json

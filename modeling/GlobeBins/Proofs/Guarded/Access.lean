import GlobeBins.Fault
import GlobeBins.Statistic.Arithmetic
import GlobeBins.Proofs.Checked

namespace GlobeBins

/-- Why a program cannot go on. -/
inductive Stop where
  | index
  | overflow
  | division
  /-- Nothing lies between two bounds that are the wrong way round. -/
  | bounds
  | fault (f : Fault)
  deriving DecidableEq

namespace Guarded

section

variable {α : Type}

/-- The entry of a vector at a position. -/
def item (v : List α) (i : Nat) : Except Stop α :=
  match v[i]? with
  | some x => .ok x
  | none => .error .index

/-- Replaces an entry. -/
def store (v : List α) (i : Nat) (x : α) : Except Stop (List α) :=
  if i < v.length then .ok (v.set i x) else .error .index

/-- Changes an entry. -/
def update (v : List α) (i : Nat) (f : α → α) : Except Stop (List α) := do
  store v i (f (← item v i))

/-- The slice of the first entries. -/
def front (v : List α) (n : Nat) : Except Stop (List α) :=
  if n ≤ v.length then .ok (v.take n) else .error .index

/-- Replaces the first entries. -/
def write (entries v : List α) : Except Stop (List α) :=
  if entries.length ≤ v.length then .ok (overwrite entries v) else .error .index

theorem item_eq {v : List α} {i : Nat} {x : α} (h : v[i]? = some x) : item v i = .ok x := by
  rw [item,h]

theorem item_getElem {v : List α} {i : Nat} (h : i < v.length) : item v i = .ok v[i] :=
  item_eq (List.getElem?_eq_getElem h)

theorem store_eq {v : List α} {i : Nat} (h : i < v.length) (x : α) :
    store v i x = .ok (v.set i x) := if_pos h

theorem update_eq {v : List α} {i : Nat} (h : i < v.length) (f : α → α) :
    update v i f = .ok (v.modify i f) := by
  rw [update,item_getElem h]
  show store v i (f v[i]) = _
  rw [store_eq h,List.modify_eq_set_getElem?]
  simp [h]

theorem front_eq {v : List α} {n : Nat} (h : n ≤ v.length) : front v n = .ok (v.take n) := if_pos h

theorem write_eq {entries v : List α} (h : entries.length ≤ v.length) :
    write entries v = .ok (overwrite entries v) := if_pos h

end

/-- A number that is held in a word without a sign. -/
def word (n : Nat) : Except Stop Nat := if n < 2^64 then .ok n else .error .overflow

def minus (a b : Nat) : Except Stop Nat := if b ≤ a then .ok (a-b) else .error .overflow

def quotient (a b : Nat) : Except Stop Nat := if b = 0 then .error .division else .ok (a/b)

/-- Remainder without a sign. The quotient of the least number by -1 is no word. -/
def remainder (a b : Int32) : Except Stop Int :=
  if b = 0 then .error .division
  else if a = Int32.minValue ∧ b = -1 then .error .overflow
  else .ok (a.toInt%b.toInt)

def plus (a b : Int32) : Except Stop Int32 :=
  if -2^31 ≤ a.toInt+b.toInt ∧ a.toInt+b.toInt < 2^31 then .ok (a+b) else .error .overflow

def wordSum (a b : Int64) : Except Stop Int64 :=
  if -2^63 ≤ a.toInt+b.toInt ∧ a.toInt+b.toInt < 2^63 then .ok (a+b) else .error .overflow

def wordDifference (a b : Int64) : Except Stop Int64 :=
  if -2^63 ≤ a.toInt-b.toInt ∧ a.toInt-b.toInt < 2^63 then .ok (a-b) else .error .overflow

/-- The number between two bounds that is nearest to a number. -/
def clamp (n low high : Int64) : Except Stop Int64 :=
  if low ≤ high then .ok (if n < low then low else if high < n then high else n) else .error .bounds

/-- Position that a signed number indexes; a negative one is beyond every vector. -/
def position (n : Int32) : Nat := (n.toInt%2^64).toNat

theorem word_eq {n : Nat} (h : n < 2^64) : word n = .ok n := if_pos h

theorem minus_eq {a b : Nat} (h : b ≤ a) : minus a b = .ok (a-b) := if_pos h

theorem quotient_eq {a b : Nat} (h : 0 < b) : quotient a b = .ok (a/b) := if_neg (by omega)

theorem plus_ofNat {n m : Nat} (h : n+m < 2^31) :
    plus (Int32.ofNat n) (Int32.ofNat m) = .ok (Int32.ofNat n+Int32.ofNat m) := by
  rw [plus,Int32.toInt_ofNat_of_lt (by omega),Int32.toInt_ofNat_of_lt (by omega),
    if_pos (by omega)]

theorem wordSum_ofNat {n m : Nat} (h : n+m < 2^63) :
    wordSum (Int64.ofNat n) (Int64.ofNat m) = .ok (Int64.ofNat (n+m)) := by
  rw [wordSum,Int64.toInt_ofNat_of_lt (by omega),Int64.toInt_ofNat_of_lt (by omega),
    if_pos (by omega),Int64.ofNat_add]

theorem wordDifference_ofNat {n m : Nat} (order : m ≤ n) (h : n < 2^63) :
    wordDifference (Int64.ofNat n) (Int64.ofNat m) = .ok (Int64.ofNat (n-m)) := by
  rw [wordDifference,Int64.toInt_ofNat_of_lt h,Int64.toInt_ofNat_of_lt (by omega),
    if_pos (by omega),Int64.ofNat_sub _ _ order]

/-- From zero on, words below an upper bound are left as they are. -/
theorem clamp_zero (n : Int64) {high : Nat} (h : high < 2^63) :
    clamp n 0 (Int64.ofNat high) = .ok (Int64.ofNat (min n.toInt.toNat high)) := by
  have top : (Int64.ofNat high).toInt = high := Int64.toInt_ofNat_of_lt h
  have zero : (0 : Int64).toInt = 0 := rfl
  have value : (Int64.ofNat (min n.toInt.toNat high)).toInt = (min n.toInt.toNat high : Nat) :=
    Int64.toInt_ofNat_of_lt (by omega)
  rw [clamp,if_pos (by rw [Int64.le_iff_toInt_le,top,zero]; omega)]
  refine congrArg Except.ok (Int64.toInt_inj.mp ?_)
  rw [value]
  simp only [Int64.lt_iff_toInt_lt,top,zero]
  split
  · omega
  · split <;> omega

theorem clamp_stops (n : Int64) {low high : Int64} (h : high < low) :
    clamp n low high = .error .bounds := if_neg (Int64.not_le.mpr h)

theorem position_ofNat {n : Nat} (h : n < 2^31) : position (Int32.ofNat n) = n := by
  rw [position,Int32.toInt_ofNat_of_lt h]
  omega

end Guarded

end GlobeBins

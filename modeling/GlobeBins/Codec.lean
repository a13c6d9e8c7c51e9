import GlobeBins.Bin
import GlobeBins.Fault
import GlobeBins.Word

namespace GlobeBins

/-- Bins as bytes: records of one byte order, never cut or padded, each a header and its features.
-/
structure Codec where
  order : ByteOrder
  /-- Byte order of the machine. -/
  host : ByteOrder
  /-- Number of features of every bin. -/
  features : Nat
  deriving DecidableEq

namespace Codec

def spatialHeader : Nat := 16

def regionHeader : Nat := 24

variable (c : Codec)

def spatialSize : Nat := spatialHeader+4*c.features

def regionSize : Nat := regionHeader+4*c.features

def int32 (n : Int32) : Bytes := Word.encode c.order 4 n.toUInt32.toNat

def int64 (n : Int64) : Bytes := Word.encode c.order 8 n.toUInt64.toNat

def toInt32 (b : Bytes) : Int32 := (UInt32.ofNat (Word.decode c.order b)).toInt32

def toInt64 (b : Bytes) : Int64 := (UInt64.ofNat (Word.decode c.order b)).toInt64

/-- Features as they lie in memory. -/
def image (host : ByteOrder) (xs : List Binary32) : Bytes :=
  xs.flatMap fun x => Word.encode host 4 x.bits.toNat

/-- In the machine's order features are copied, in the other one each is reversed. -/
def floats (xs : List Binary32) : Bytes :=
  if c.order = c.host then image c.host xs
  else xs.flatMap fun x => (Word.encode c.host 4 x.bits.toNat).reverse

/-- Reads `count` features. -/
def toFloats : Nat → Bytes → List Binary32
  | 0,_ => []
  | count+1,b =>
    let word := b.take 4
    let word := if c.order = c.host then word else word.reverse
    ⟨UInt32.ofNat (Word.decode c.host word)⟩::toFloats count (b.drop 4)

def checkCount (actual : Nat) : Except Fault Unit :=
  if actual = c.features then .ok () else .error (.featureCount c.features actual)

/-- The feature count as a header holds it. -/
def countField (count : Nat) : Except Fault Bytes :=
  if count < 2^31 then .ok (Word.encode c.order 4 count) else .error .overflow

/-- What is appended for a bin, and whether all of it was. -/
abbrev Written := Except Fault Unit × Bytes

/-- `head` are the fields before the feature count. -/
def write (head : Bytes) (xs : List Binary32) : Written :=
  match c.checkCount xs.length with
  | .error f => (.error f,[])
  | .ok () =>
    match c.countField xs.length with
    | .error f => (.error f,head)
    | .ok count => (.ok (),head++count++c.floats xs)

def writeSpatial (b : SpatialBin Binary32) : Written :=
  c.write (c.int64 b.index++c.int32 b.observations) b.features

def writeRegion (b : RegionBin Binary32) : Written :=
  c.write (c.int32 b.key.region++c.int64 b.key.bin++c.int32 b.bin.observations++
    c.int32 b.bin.passes) b.bin.features

/-- The buffer after a write. -/
def append (w : Written) (buffer : Bytes) : Except Fault Unit × Bytes := (w.1,buffer++w.2)

def encodeAll {β : Type} (write : β → Written) (bins : List β) : Except Fault Bytes := do
  let records ← bins.mapM fun b =>
    match write b with
    | (.ok (),w) => .ok w
    | (.error f,_) => .error f
  return records.flatten

def encodeSpatial (bins : List (SpatialBin Binary32)) : Except Fault Bytes :=
  encodeAll c.writeSpatial bins

def encodeRegion (bins : List (RegionBin Binary32)) : Except Fault Bytes :=
  encodeAll c.writeRegion bins

/-- Looks no further than it must. -/
def holds (needed : Nat) (b : Bytes) : Bool := needed = 0 || !(b.drop (needed-1)).isEmpty

theorem holds_iff (needed : Nat) (b : Bytes) : holds needed b = true ↔ needed ≤ b.length := by
  simp only [holds,Bool.or_eq_true,decide_eq_true_eq,Bool.not_eq_true',List.isEmpty_eq_false_iff,
    ne_eq,List.drop_eq_nil_iff]
  omega

/-- A decoded value and the bytes after it; on a fault, the bytes that were not read. -/
abbrev Read (β : Type) := Except Fault β × Bytes

/-- Reads the features behind a header that gives their count. -/
def readFeatures (count : Int32) (b : Bytes) : Read (List Binary32) :=
  let n := count.toInt.toNat
  if count < 0 then (.error (.featureCount c.features 0),b)
  else
    match c.checkCount n with
    | .error f => (.error f,b)
    | .ok () =>
      if holds (4*n) b then (.ok (c.toFloats n b),b.drop (4*n))
      else (.error (.truncated (4*n) b.length),b)

def readSpatial (b : Bytes) : Read (SpatialBin Binary32) :=
  if holds spatialHeader b then
    let (features,rest) := c.readFeatures (c.toInt32 ((b.drop 12).take 4)) (b.drop spatialHeader)
    (features.map fun xs => ⟨c.toInt64 (b.take 8),c.toInt32 ((b.drop 8).take 4),xs⟩,rest)
  else (.error (.truncated spatialHeader b.length),b)

def readRegion (b : Bytes) : Read (RegionBin Binary32) :=
  if holds regionHeader b then
    let (features,rest) := c.readFeatures (c.toInt32 ((b.drop 20).take 4)) (b.drop regionHeader)
    (features.map fun xs => .of (c.toInt32 (b.take 4))
      ⟨c.toInt64 ((b.drop 4).take 8),c.toInt32 ((b.drop 12).take 4),
        c.toInt32 ((b.drop 16).take 4),xs⟩,rest)
  else (.error (.truncated regionHeader b.length),b)

/-- Every record takes at least one byte, so the number of bytes is fuel enough. -/
def decodeFrom {β : Type} (read : Bytes → Read β) : Nat → List β → Bytes → Except Fault (List β)
  | 0,reversed,_ => .ok reversed.reverse
  | fuel+1,reversed,b =>
    if b.isEmpty then .ok reversed.reverse
    else
      match read b with
      | (.error f,_) => .error f
      | (.ok x,rest) => decodeFrom read fuel (x::reversed) rest

def decodeSpatial (b : Bytes) : Except Fault (List (SpatialBin Binary32)) :=
  decodeFrom c.readSpatial b.length [] b

def decodeRegion (b : Bytes) : Except Fault (List (RegionBin Binary32)) :=
  decodeFrom c.readRegion b.length [] b

end Codec

end GlobeBins

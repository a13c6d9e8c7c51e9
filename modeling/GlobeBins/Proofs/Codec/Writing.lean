import GlobeBins.Proofs.Codec.RoundTrip

namespace GlobeBins

namespace Codec

section

variable (c : Codec)

/-- Appends pieces until one of them cannot be made. -/
def putAll : List (Except Fault Bytes) → Bytes → Except Fault Unit × Bytes
  | [],buffer => (.ok (),buffer)
  | .error f::_,buffer => (.error f,buffer)
  | .ok piece::pieces,buffer => putAll pieces (buffer++piece)

/-- Features are one piece in the machine's order and a piece each in the other one. -/
def floatPieces (xs : List Binary32) : List Bytes :=
  if c.order = c.host then [image c.host xs]
  else xs.map fun x => (Word.encode c.host 4 x.bits.toNat).reverse

/-- The feature count is compared before the fields and made a field behind them. -/
def pieces (fields : List Bytes) (xs : List Binary32) : List (Except Fault Bytes) :=
  (c.checkCount xs.length).map (fun _ => [])::(fields.map .ok++
    c.countField xs.length::(c.floatPieces xs).map .ok)

def spatialPieces (b : SpatialBin Binary32) : List (Except Fault Bytes) :=
  c.pieces [c.int64 b.index,c.int32 b.observations] b.features

def regionPieces (b : RegionBin Binary32) : List (Except Fault Bytes) :=
  c.pieces [c.int32 b.key.region,c.int64 b.key.bin,c.int32 b.bin.observations,c.int32 b.bin.passes]
    b.bin.features

/-- What an attempt to append a record of that size comes to; `head` are the fields before the feature
count. -/
structure Appended (size : Nat) (head : Bytes) (xs : List Binary32) (buffer : Bytes)
    (after : Except Fault Unit × Bytes) : Prop where
  accepted : after.1 = .ok () ↔ c.Fits xs
  whole : after.1 = .ok () →
    after.2 = buffer++c.record head xs ∧ (c.record head xs).length = size
  nothing : xs.length ≠ c.features ∨ c.features < 2^31 →
    ∀ f,after.1 = .error f → after.2 = buffer
  torn : xs.length = c.features → 2^31 ≤ c.features → after = (.error .overflow,buffer++head)

end

variable {c : Codec}

theorem putAll_ok (bs : List Bytes) (rest : List (Except Fault Bytes)) (buffer : Bytes) :
    putAll (bs.map .ok++rest) buffer = putAll rest (buffer++bs.flatten) := by
  induction bs generalizing buffer with
  | nil => simp
  | cons b bs ih => rw [List.map_cons,List.cons_append,putAll,ih,List.flatten_cons,List.append_assoc]

/-- Either way the features are the same bytes. -/
theorem floatPieces_flatten (xs : List Binary32) : (c.floatPieces xs).flatten = c.floats xs := by
  unfold floatPieces floats
  split
  · simp
  · rw [List.flatMap_def]

theorem putAll_pieces (fields : List Bytes) (xs : List Binary32) (buffer : Bytes) :
    putAll (c.pieces fields xs) buffer = append (c.write fields.flatten xs) buffer := by
  unfold pieces write
  cases c.checkCount xs.length with
  | error f =>
    rw [Except.map,putAll,append,List.append_nil]
  | ok =>
    rw [Except.map,putAll,List.append_nil,putAll_ok]
    cases c.countField xs.length with
    | error f => rfl
    | ok count =>
      have last := putAll_ok (c.floatPieces xs) [] (buffer++fields.flatten++count)
      rw [List.append_nil,floatPieces_flatten] at last
      rw [putAll,last,putAll,append]
      simp only [List.append_assoc]

theorem write_other {xs : List Binary32} (other : xs.length ≠ c.features) (head : Bytes) :
    c.write head xs = (.error (.featureCount c.features xs.length),[]) := by
  rw [write,checkCount,if_neg other]

/-- The fields before the count are written before it is found not to fit. -/
theorem write_torn {xs : List Binary32} (same : xs.length = c.features)
    (many : 2^31 ≤ c.features) (head : Bytes) : c.write head xs = (.error .overflow,head) := by
  have tooMany : ¬xs.length < 2^31 := by omega
  rw [write,checkCount,if_pos same,countField,if_neg tooMany]

theorem write_appended {size : Nat} {head : Bytes} (xs : List Binary32) (buffer : Bytes)
    (width : head.length+4+4*c.features = size) :
    c.Appended size head xs buffer (append (c.write head xs) buffer) := by
  have accepted : (c.write head xs).1 = .ok () ↔ c.Fits xs :=
    ⟨write_ok,fun fits => by rw [write_of_fits fits]⟩
  constructor
  case accepted => exact accepted
  case whole =>
    intro ok
    have fits := accepted.mp ok
    refine ⟨?_,(record_length fits.1).trans width⟩
    rw [write_of_fits fits,append]
  case nothing =>
    intro few f fails
    by_cases same : xs.length = c.features
    · have fits : c.Fits xs := ⟨same,few.resolve_left fun other => other same⟩
      rw [append,accepted.mpr fits] at fails
      cases fails
    · rw [write_other same,append,List.append_nil]
  case torn =>
    intro same many
    rw [write_torn same many,append]

end Codec

/-- A bin with as many features as the codec has is appended whole, and one with any other number not at
all. Only a bin with the codec's own number of features leaves part of itself behind, if no header can
hold that number. -/
theorem appends_whole (c : Codec) (buffer : Bytes) :
    (∀ b : SpatialBin Binary32,
      Codec.putAll (c.spatialPieces b) buffer = Codec.append (c.writeSpatial b) buffer ∧
      c.Appended c.spatialSize (c.int64 b.index++c.int32 b.observations) b.features buffer
        (Codec.append (c.writeSpatial b) buffer)) ∧
    ∀ b : RegionBin Binary32,
      Codec.putAll (c.regionPieces b) buffer = Codec.append (c.writeRegion b) buffer ∧
      c.Appended c.regionSize (c.int32 b.key.region++c.int64 b.key.bin++
          c.int32 b.bin.observations++c.int32 b.bin.passes) b.bin.features buffer
        (Codec.append (c.writeRegion b) buffer) := by
  refine ⟨fun b => ⟨?_,?_⟩,fun b => ⟨?_,?_⟩⟩
  · rw [Codec.spatialPieces,Codec.putAll_pieces,Codec.writeSpatial]
    simp
  · refine Codec.write_appended _ _ ?_
    rw [List.length_append,Codec.int64_length,Codec.int32_length]
    rfl
  · rw [Codec.regionPieces,Codec.putAll_pieces,Codec.writeRegion]
    simp
  · refine Codec.write_appended _ _ ?_
    simp only [List.length_append,Codec.int32_length,Codec.int64_length]
    rfl

/-- One feature more than headers can count. -/
def Codec.overfull : Codec := ⟨.big,.native,2^31⟩

/-- A refused bin, with the codec's number of features, leaves its index and its observations in the
buffer. -/
theorem overfull_torn :
    Codec.append (Codec.overfull.writeSpatial ⟨1,2,List.replicate (2^31) 0⟩) [7] =
      (.error .overflow,[7,0,0,0,0,0,0,0,1,0,0,0,2]) := by
  have fields : Codec.overfull.int64 1++Codec.overfull.int32 2 =
      [0,0,0,0,0,0,0,1,0,0,0,2] := by decide
  have torn (head : Bytes) :
      Codec.overfull.write head (List.replicate (2^31) 0) = (.error .overflow,head) :=
    Codec.write_torn List.length_replicate (Nat.le_refl _) head
  rw [Codec.writeSpatial,torn,fields]
  rfl

end GlobeBins

import GlobeBins.Codec
import GlobeBins.Proofs.Checked

namespace GlobeBins

namespace Codec

variable (c : Codec)

theorem int32_length (n : Int32) : (c.int32 n).length = 4 := Word.encode_length _ _ _

theorem int64_length (n : Int64) : (c.int64 n).length = 8 := Word.encode_length _ _ _

theorem toInt32_int32 (n : Int32) : c.toInt32 (c.int32 n) = n := by
  have low : n.toUInt32.toNat < 256^4 := n.toUInt32.toNat_lt
  rw [toInt32,int32,Word.decode_encode,Nat.mod_eq_of_lt low,UInt32.ofNat_toNat]
  rfl

theorem toInt64_int64 (n : Int64) : c.toInt64 (c.int64 n) = n := by
  have low : n.toUInt64.toNat < 256^8 := n.toUInt64.toNat_lt
  rw [toInt64,int64,Word.decode_encode,Nat.mod_eq_of_lt low,UInt64.ofNat_toNat]
  rfl

/-- One feature in either order. -/
def float (x : Binary32) : Bytes :=
  let word := Word.encode c.host 4 x.bits.toNat
  if c.order = c.host then word else word.reverse

theorem float_length (x : Binary32) : (c.float x).length = 4 := by
  unfold float
  split <;> simp [Word.encode_length]

theorem floats_eq (xs : List Binary32) : c.floats xs = xs.flatMap c.float := by
  unfold floats image float
  split <;> rfl

theorem floats_length (xs : List Binary32) : (c.floats xs).length = 4*xs.length := by
  rw [floats_eq]
  induction xs with
  | nil => rfl
  | cons x xs ih => simp [float_length,ih]; omega

/-- The bits come back, so a NaN keeps its payload. -/
theorem toFloats_floats (xs : List Binary32) (rest : Bytes) :
    c.toFloats xs.length (c.floats xs++rest) = xs := by
  rw [floats_eq]
  induction xs with
  | nil => rfl
  | cons x xs ih =>
    have front : ((c.float x++xs.flatMap c.float++rest).take 4) = c.float x := by
      rw [List.append_assoc,List.take_left' (c.float_length x)]
    have back : ((c.float x++xs.flatMap c.float++rest).drop 4) = xs.flatMap c.float++rest := by
      rw [List.append_assoc,List.drop_left' (c.float_length x)]
    have low : x.bits.toNat < 256^4 := x.bits.toNat_lt
    have word : (if c.order = c.host then c.float x else (c.float x).reverse) =
        Word.encode c.host 4 x.bits.toNat := by
      unfold float
      split <;> simp
    simp only [List.flatMap_cons,List.length_cons,toFloats,front,back,word,ih,Word.decode_encode,
      Nat.mod_eq_of_lt low,UInt32.ofNat_toNat]

/-- What is written for a bin whose features have the right number. -/
def record (head : Bytes) (xs : List Binary32) : Bytes :=
  head++(c.int32 (Int32.ofNat xs.length)++c.floats xs)

def spatialRecord (b : SpatialBin Binary32) : Bytes :=
  c.record (c.int64 b.index++c.int32 b.observations) b.features

def regionRecord (b : RegionBin Binary32) : Bytes :=
  c.record (c.int32 b.key.region++c.int64 b.key.bin++c.int32 b.bin.observations++
    c.int32 b.bin.passes) b.bin.features

/-- Features that the codec takes. -/
def Fits (xs : List Binary32) : Prop := xs.length = c.features ∧ c.features < 2^31

variable {c}

theorem Fits.count_toInt {xs : List Binary32} (h : c.Fits xs) :
    (Int32.ofNat xs.length).toInt = xs.length :=
  Int32.toInt_ofNat_of_lt (h.1 ▸ h.2)

theorem countField_eq {n : Nat} (h : n < 2^31) :
    c.countField n = .ok (c.int32 (Int32.ofNat n)) := by
  have same : (Int32.ofNat n).toUInt32.toNat = n := by
    rw [Int32.toUInt32_ofNat',UInt32.toNat_ofNat_of_lt' (by simp only [UInt32.size]; omega)]
  rw [countField,if_pos h,int32,same]

theorem write_of_fits {xs : List Binary32} (h : c.Fits xs) (head : Bytes) :
    c.write head xs = (.ok (),c.record head xs) := by
  have low : xs.length < 2^31 := h.1 ▸ h.2
  simp only [write,checkCount,if_pos h.1,countField_eq low,record,List.append_assoc]

theorem write_ok {xs : List Binary32} {head : Bytes} (h : (c.write head xs).1 = .ok ()) :
    c.Fits xs := by
  unfold write checkCount countField at h
  split at h
  next => cases h
  next eq =>
    split at eq
    next same =>
      split at h
      next => cases h
      next count =>
        split at count
        next low => exact ⟨same,same ▸ low⟩
        next => cases count
    next => cases eq

theorem writeSpatial_ok_iff {b : SpatialBin Binary32} :
    (c.writeSpatial b).1 = .ok () ↔ c.Fits b.features :=
  ⟨write_ok,fun h => by rw [writeSpatial,write_of_fits h]⟩

theorem writeRegion_ok_iff {b : RegionBin Binary32} :
    (c.writeRegion b).1 = .ok () ↔ c.Fits b.bin.features :=
  ⟨write_ok,fun h => by rw [writeRegion,write_of_fits h]⟩

theorem readFeatures_record {xs : List Binary32} (h : c.Fits xs) (rest : Bytes) :
    c.readFeatures (Int32.ofNat xs.length) (c.floats xs++rest) = (.ok xs,rest) := by
  have count := h.count_toInt
  have notNegative : ¬Int32.ofNat xs.length < 0 := by
    rw [Int32.lt_iff_toInt_lt,count]
    simp
  have length := c.floats_length xs
  have enough : holds (4*xs.length) (c.floats xs++rest) = true := by
    rw [holds_iff,List.length_append,length]
    omega
  simp only [readFeatures,if_neg notNegative,count,Int.toNat_natCast,checkCount,if_pos h.1,enough,
    if_true,toFloats_floats,List.drop_left' length]

/-- Behind a first field, positions count from its end. -/
theorem drop_field {a : Bytes} {n : Nat} (h : a.length = n) (m : Nat) (rest : Bytes) :
    (a++rest).drop (n+m) = rest.drop m := by
  rw [← List.drop_drop,List.drop_left' h]

theorem readSpatial_record {b : SpatialBin Binary32} (h : c.Fits b.features) (rest : Bytes) :
    c.readSpatial (c.spatialRecord b++rest) = (.ok b,rest) := by
  have index := c.int64_length b.index
  have observations := c.int32_length b.observations
  have count := c.int32_length (Int32.ofNat b.features.length)
  have split : c.spatialRecord b++rest = c.int64 b.index++(c.int32 b.observations++
      (c.int32 (Int32.ofNat b.features.length)++(c.floats b.features++rest))) := by
    simp [spatialRecord,record]
  have enough : holds spatialHeader (c.spatialRecord b++rest) = true := by
    rw [holds_iff,split]
    simp only [List.length_append,index,observations,count,spatialHeader]
    omega
  have drops : ∀ tail : Bytes,(c.int64 b.index++tail).drop 8 = tail ∧
      (c.int64 b.index++(c.int32 b.observations++tail)).drop 12 = tail ∧
      (c.int64 b.index++(c.int32 b.observations++
        (c.int32 (Int32.ofNat b.features.length)++tail))).drop 16 = tail := by
    intro tail
    refine ⟨List.drop_left' index,?_,?_⟩
    · rw [drop_field index 4,List.drop_left' observations]
    · rw [drop_field index 8,drop_field observations 4,List.drop_left' count]
  simp only [readSpatial,enough,if_true]
  rw [split]
  simp only [spatialHeader,(drops _).1,(drops _).2.1,(drops _).2.2,List.take_left' index,
    List.take_left' observations,List.take_left' count,readFeatures_record h,toInt64_int64,
    toInt32_int32]
  rfl

theorem keyed_bin {b : RegionBin Binary32} (key : b.key.bin = b.bin.index) :
    .of b.key.region ⟨b.key.bin,b.bin.observations,b.bin.passes,b.bin.features⟩ = b := by
  obtain ⟨⟨region,index⟩,⟨_,observations,passes,features⟩⟩ := b
  simp only at key
  rw [RegionBin.of,key]

/-- The bin's index is written once, as part of the key. -/
theorem readRegion_record {b : RegionBin Binary32} (h : c.Fits b.bin.features)
    (key : b.key.bin = b.bin.index) (rest : Bytes) :
    c.readRegion (c.regionRecord b++rest) = (.ok b,rest) := by
  have region := c.int32_length b.key.region
  have index := c.int64_length b.key.bin
  have observations := c.int32_length b.bin.observations
  have passes := c.int32_length b.bin.passes
  have count := c.int32_length (Int32.ofNat b.bin.features.length)
  have split : c.regionRecord b++rest = c.int32 b.key.region++(c.int64 b.key.bin++
      (c.int32 b.bin.observations++(c.int32 b.bin.passes++
        (c.int32 (Int32.ofNat b.bin.features.length)++(c.floats b.bin.features++rest))))) := by
    simp [regionRecord,record]
  have enough : holds regionHeader (c.regionRecord b++rest) = true := by
    rw [holds_iff,split]
    simp only [List.length_append,region,index,observations,passes,count,regionHeader]
    omega
  have behindRegion (tail : Bytes) : (c.int32 b.key.region++tail).drop 4 = tail :=
    List.drop_left' region
  have behindIndex (tail : Bytes) :
      (c.int32 b.key.region++(c.int64 b.key.bin++tail)).drop 12 = tail := by
    rw [drop_field region 8,List.drop_left' index]
  have behindObservations (tail : Bytes) : (c.int32 b.key.region++(c.int64 b.key.bin++
      (c.int32 b.bin.observations++tail))).drop 16 = tail := by
    rw [drop_field region 12,drop_field index 4,List.drop_left' observations]
  have behindPasses (tail : Bytes) : (c.int32 b.key.region++(c.int64 b.key.bin++
      (c.int32 b.bin.observations++(c.int32 b.bin.passes++tail)))).drop 20 = tail := by
    rw [drop_field region 16,drop_field index 8,drop_field observations 4,List.drop_left' passes]
  have behindCount (tail : Bytes) : (c.int32 b.key.region++(c.int64 b.key.bin++
      (c.int32 b.bin.observations++(c.int32 b.bin.passes++
        (c.int32 (Int32.ofNat b.bin.features.length)++tail))))).drop 24 = tail := by
    rw [drop_field region 20,drop_field index 12,drop_field observations 8,drop_field passes 4,
      List.drop_left' count]
  simp only [readRegion,enough,if_true]
  rw [split]
  simp only [regionHeader,behindRegion,behindIndex,behindObservations,behindPasses,behindCount,
    List.take_left' region,List.take_left' index,List.take_left' observations,
    List.take_left' passes,List.take_left' count,readFeatures_record h,toInt64_int64,toInt32_int32]
  have whole := keyed_bin key
  exact congrArg (fun b => (Except.ok b,rest)) whole

section

variable {β : Type} {write : β → Written} {read : Bytes → Read β} {bytes : β → Bytes}

/-- A list is written exactly if every bin is, and then without anything between the records. -/
theorem encodeAll_eq_ok_iff {bins : List β} {b : Bytes} : encodeAll write bins = .ok b ↔
    (∀ x ∈ bins,(write x).1 = .ok ()) ∧ b = bins.flatMap fun x => (write x).2 := by
  simp only [encodeAll,bind_eq_ok,mapM_eq_ok,pure,Except.pure,Except.ok.injEq]
  constructor
  · intro h
    obtain ⟨records,each,rfl⟩ := h
    induction each with
    | nil => simp
    | @cons x w _ _ first _ ih =>
      have record : (write x).1 = .ok () ∧ w = (write x).2 := by
        revert first
        rcases write x with ⟨_ | _,_⟩ <;> simp [eq_comm]
      obtain ⟨written,rfl⟩ := record
      simpa [written,ih.2] using ih.1
  · intro h
    obtain ⟨written,rfl⟩ := h
    refine ⟨bins.map fun x => (write x).2,?_,List.flatMap_def.symm⟩
    rw [List.forall₂_map_right_iff,List.forall₂_same]
    intro x hx
    have accepted := written x hx
    revert accepted
    rcases write x with ⟨_ | _,_⟩ <;> simp

/-- If every record is taken off exactly, so is a list of records. -/
theorem decodeFrom_flatMap {bins : List β} (taken : ∀ x ∈ bins,∀ rest,
    read (bytes x++rest) = (.ok x,rest)) (nonempty : ∀ x ∈ bins,bytes x ≠ []) (fuel : Nat)
    (enough : (bins.flatMap bytes).length ≤ fuel) (reversed : List β) :
    decodeFrom read fuel reversed (bins.flatMap bytes) = .ok (reversed.reverse++bins) := by
  induction bins generalizing fuel reversed with
  | nil => cases fuel <;> simp [decodeFrom]
  | cons x xs ih =>
    have ne := nonempty x (by simp)
    have pos := List.length_pos_iff.mpr ne
    have notEmpty : ((x::xs).flatMap bytes).isEmpty = false := by simp [ne]
    simp only [List.flatMap_cons,List.length_append] at enough
    cases fuel with
    | zero => omega
    | succ fuel =>
      have tail := ih (fun y hy => taken y (by simp [hy])) (fun y hy => nonempty y (by simp [hy]))
        fuel (by omega) (x::reversed)
      rw [decodeFrom,notEmpty,if_neg (by simp),List.flatMap_cons,taken x (by simp)]
      simp only [tail,List.reverse_cons,List.append_assoc,List.singleton_append]

/-- What holds of the loop over a byte string if it holds of no bytes, of a record that cannot be read,
and of a record in front of what it holds of. Every record takes bytes, so the loop ends. -/
theorem decodeFrom_induction {P : Bytes → Except Fault (List β) → Prop}
    (shorter : ∀ {b x rest},read b = (.ok x,rest) → rest.length < b.length) (nil : P [] (.ok []))
    (stop : ∀ {b f rest},b ≠ [] → read b = (.error f,rest) → P b (.error f))
    (next : ∀ {b x rest r},b ≠ [] → read b = (.ok x,rest) → P rest r → P b (r.map (x::·)))
    (b : Bytes) : P b (decodeFrom read b.length [] b) := by
  have loop : ∀ fuel,∀ b : Bytes,b.length ≤ fuel → ∀ reversed,∃ r,
      decodeFrom read fuel reversed b = r.map (reversed.reverse++·) ∧ P b r := by
    intro fuel
    induction fuel with
    | zero =>
      intro b none reversed
      obtain rfl := List.length_eq_zero_iff.mp (Nat.le_zero.mp none)
      exact ⟨.ok [],by simp [decodeFrom,Except.map],nil⟩
    | succ fuel ih =>
      intro b enough reversed
      by_cases none : b = []
      · subst none
        exact ⟨.ok [],by simp [decodeFrom,Except.map],nil⟩
      · have some : b.isEmpty = false := by simpa using none
        rw [decodeFrom,some,if_neg Bool.false_ne_true]
        cases taken : read b with
        | mk result rest =>
          cases result with
          | error f => exact ⟨.error f,rfl,stop none taken⟩
          | ok x =>
            have less := shorter taken
            obtain ⟨r,eq,holds⟩ := ih rest (by omega) (x::reversed)
            refine ⟨r.map (x::·),?_,next none taken holds⟩
            simp only [eq]
            cases r <;> simp [Except.map]
  obtain ⟨r,eq,holds⟩ := loop b.length b (Nat.le_refl _) []
  have same : r.map (List.reverse []++·) = r := by cases r <;> rfl
  rw [eq,same]
  exact holds

end

variable {c : Codec}

theorem record_ne_nil {head : Bytes} {xs : List Binary32} : c.record head xs ≠ [] := by
  intro eq
  have length := congrArg List.length eq
  simp [record,int32_length] at length

theorem encodeSpatial_eq_ok_iff {bins : List (SpatialBin Binary32)} {b : Bytes} :
    c.encodeSpatial bins = .ok b ↔
      (∀ x ∈ bins,c.Fits x.features) ∧ b = bins.flatMap c.spatialRecord := by
  rw [encodeSpatial,encodeAll_eq_ok_iff]
  simp only [writeSpatial_ok_iff]
  apply and_congr_right
  intro fits
  have same : bins.flatMap (fun x => (c.writeSpatial x).2) = bins.flatMap c.spatialRecord :=
    List.flatMap_congr fun x hx => by rw [writeSpatial,write_of_fits (fits x hx),spatialRecord]
  rw [same]

theorem encodeRegion_eq_ok_iff {bins : List (RegionBin Binary32)} {b : Bytes} :
    c.encodeRegion bins = .ok b ↔
      (∀ x ∈ bins,c.Fits x.bin.features) ∧ b = bins.flatMap c.regionRecord := by
  rw [encodeRegion,encodeAll_eq_ok_iff]
  simp only [writeRegion_ok_iff]
  apply and_congr_right
  intro fits
  have same : bins.flatMap (fun x => (c.writeRegion x).2) = bins.flatMap c.regionRecord :=
    List.flatMap_congr fun x hx => by rw [writeRegion,write_of_fits (fits x hx),regionRecord]
  rw [same]

theorem decodeSpatial_encodeSpatial {bins : List (SpatialBin Binary32)} {b : Bytes}
    (h : c.encodeSpatial bins = .ok b) : c.decodeSpatial b = .ok bins := by
  obtain ⟨fits,rfl⟩ := encodeSpatial_eq_ok_iff.mp h
  exact decodeFrom_flatMap (fun x hx => readSpatial_record (fits x hx))
    (fun _ _ => record_ne_nil) _ (Nat.le_refl _) []

/-- The index comes back as that of the key, so the two have to agree. -/
theorem decodeRegion_encodeRegion {bins : List (RegionBin Binary32)} {b : Bytes}
    (h : c.encodeRegion bins = .ok b) (keys : ∀ x ∈ bins,x.key.bin = x.bin.index) :
    c.decodeRegion b = .ok bins := by
  obtain ⟨fits,rfl⟩ := encodeRegion_eq_ok_iff.mp h
  exact decodeFrom_flatMap (fun x hx => readRegion_record (fits x hx) (keys x hx))
    (fun _ _ => record_ne_nil) _ (Nat.le_refl _) []

theorem record_length {head : Bytes} {xs : List Binary32} (h : xs.length = c.features) :
    (c.record head xs).length = head.length+4+4*c.features := by
  rw [record,List.length_append,List.length_append,int32_length,floats_length,h,Nat.add_assoc]

theorem spatialRecord_length {b : SpatialBin Binary32} (h : b.features.length = c.features) :
    (c.spatialRecord b).length = c.spatialSize := by
  rw [spatialRecord,record_length h,List.length_append,int64_length,int32_length]
  rfl

theorem regionRecord_length {b : RegionBin Binary32} (h : b.bin.features.length = c.features) :
    (c.regionRecord b).length = c.regionSize := by
  rw [regionRecord,record_length h]
  simp only [List.length_append,int32_length,int64_length]
  rfl

/-- Bins are written as records of one size and come back from them, all in a row as well as one in
front of other bytes. -/
structure RoundTrip {β : Type} (encode : List β → Except Fault Bytes)
    (decode : Bytes → Except Fault (List β)) (write : β → Written) (read : Bytes → Read β)
    (size : Nat) (bins : List β) : Prop where
  together : ∃ b,encode bins = .ok b ∧ b.length = bins.length*size ∧ decode b = .ok bins
  alone : ∀ x ∈ bins,∃ b,write x = (.ok (),b) ∧ b.length = size ∧
    ∀ rest,read (b++rest) = (.ok x,rest)

/-- Records of one size, each of which is taken off exactly, make a round trip. -/
theorem RoundTrip.of_records {β : Type} {write : β → Written} {read : Bytes → Read β} {size : Nat}
    {bins : List β} {bytes : β → Bytes} (written : ∀ x ∈ bins,write x = (.ok (),bytes x))
    (length : ∀ x ∈ bins,(bytes x).length = size)
    (taken : ∀ x ∈ bins,∀ rest,read (bytes x++rest) = (.ok x,rest)) (some : 0 < size) :
    RoundTrip (encodeAll write) (fun b => decodeFrom read b.length [] b) write read size bins := by
  constructor
  case together =>
    refine ⟨bins.flatMap bytes,?_,?_,?_⟩
    · rw [encodeAll_eq_ok_iff]
      refine ⟨fun x hx => by rw [written x hx],?_⟩
      exact List.flatMap_congr fun x hx => by rw [written x hx]
    · rw [List.length_flatMap,List.map_congr_left length]
      simp
    · refine decodeFrom_flatMap taken ?_ _ (Nat.le_refl _) []
      intro x hx
      exact List.ne_nil_of_length_pos (by rw [length x hx]; exact some)
  case alone => exact fun x hx => ⟨bytes x,written x hx,length x hx,taken x hx⟩

end Codec

/-- Bins with the codec's number of features make the round trip in either byte order, whatever their
counts and whatever bits their features have; copies for a region do so because a copy's key holds
its bin's index. -/
theorem codec_round_trip (c : Codec) (low : c.features < 2^31) :
    (∀ bins : List (SpatialBin Binary32),(∀ b ∈ bins,b.features.length = c.features) →
      Codec.RoundTrip c.encodeSpatial c.decodeSpatial c.writeSpatial c.readSpatial c.spatialSize
        bins) ∧
    ∀ copies : List (Int32 × TemporalBin Binary32),
      (∀ x ∈ copies,x.2.features.length = c.features) →
      Codec.RoundTrip c.encodeRegion c.decodeRegion c.writeRegion c.readRegion c.regionSize
        (copies.map fun x => .of x.1 x.2) := by
  constructor
  · intro bins same
    have fits : ∀ b ∈ bins,c.Fits b.features := fun b hb => ⟨same b hb,low⟩
    exact .of_records (fun b hb => Codec.write_of_fits (fits b hb) _)
      (fun b hb => Codec.spatialRecord_length (same b hb))
      (fun b hb => Codec.readSpatial_record (fits b hb))
      (by simp [Codec.spatialSize,Codec.spatialHeader])
  · intro copies same
    have fits : ∀ b ∈ copies.map fun x => RegionBin.of x.1 x.2,
        c.Fits b.bin.features ∧ b.key.bin = b.bin.index := by
      intro b hb
      obtain ⟨x,hx,rfl⟩ := List.mem_map.mp hb
      exact ⟨⟨same x hx,low⟩,rfl⟩
    exact .of_records (fun b hb => Codec.write_of_fits (fits b hb).1 _)
      (fun b hb => Codec.regionRecord_length (fits b hb).1.1)
      (fun b hb => Codec.readRegion_record (fits b hb).1 (fits b hb).2)
      (by simp [Codec.regionSize,Codec.regionHeader])

/-- Negative fields, a NaN with a payload and a negative zero, in the order that is not the
machine's. -/
theorem codec_round_trip_signs : ∃ b,
    Codec.encodeSpatial ⟨.big,.native,2⟩ [⟨-2,-1,[⟨0xffc00001⟩,⟨0x80000000⟩]⟩] = .ok b ∧
    Codec.decodeSpatial ⟨.big,.native,2⟩ b = .ok [⟨-2,-1,[⟨0xffc00001⟩,⟨0x80000000⟩]⟩] ∧
    ∃ b',Codec.writeRegion ⟨.big,.native,2⟩ (.of (-3) ⟨-2,-1,1,[⟨0xffc00001⟩,⟨0x80000000⟩]⟩) =
        (.ok (),b') ∧
      Codec.readRegion ⟨.big,.native,2⟩ (b'++b) =
        (.ok (.of (-3) ⟨-2,-1,1,[⟨0xffc00001⟩,⟨0x80000000⟩]⟩),b) := by
  obtain ⟨spatial,region⟩ := codec_round_trip ⟨.big,.native,2⟩ (by decide)
  obtain ⟨b,encoded,_,decoded⟩ :=
    (spatial [⟨-2,-1,[⟨0xffc00001⟩,⟨0x80000000⟩]⟩] (by decide)).together
  obtain ⟨b',written,_,taken⟩ :=
    (region [(-3,⟨-2,-1,1,[⟨0xffc00001⟩,⟨0x80000000⟩]⟩)] (by decide)).alone _ List.mem_cons_self
  exact ⟨b,encoded,decoded,b',written,taken b⟩

end GlobeBins

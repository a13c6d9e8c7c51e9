import GlobeBins.Proofs.Codec.Writing

namespace GlobeBins

/-- An integer of so many bytes, or a feature. -/
inductive RecordField where
  | integer (width : Nat) (n : Int)
  | feature (x : Binary32)

namespace RecordField

def width : RecordField → Nat
  | integer width _ => width
  | feature _ => 4

/-- Two's complement of an integer; a feature is its bits. -/
def pattern : RecordField → Nat
  | integer width n => (n%2^(8*width)).toNat
  | feature x => x.bits.toNat

/-- The bytes of a field, the most significant first. -/
def mostFirst (f : RecordField) : Bytes :=
  (List.range f.width).map fun k => UInt8.ofNat (f.pattern/256^(f.width-1-k)%256)

def bytes (order : ByteOrder) (f : RecordField) : Bytes :=
  match order with
  | .big => f.mostFirst
  | .little => f.mostFirst.reverse

end RecordField

namespace Codec

/-- Fields of a bin in the order of its record. -/
def spatialFields (b : SpatialBin Binary32) : List RecordField :=
  [.integer 8 b.index.toInt,.integer 4 b.observations.toInt,.integer 4 b.features.length]++
    b.features.map .feature

/-- Fields of a copy for a region. -/
def regionFields (b : RegionBin Binary32) : List RecordField :=
  [.integer 4 b.key.region.toInt,.integer 8 b.key.bin.toInt,.integer 4 b.bin.observations.toInt,
    .integer 4 b.bin.passes.toInt,.integer 4 b.bin.features.length]++b.bin.features.map .feature

/-- Fields of bins, one after the other. -/
def fieldBytes {β : Type} (fields : β → List RecordField) (order : ByteOrder) (bins : List β) :
    Bytes :=
  bins.flatMap fun b => (fields b).flatMap (RecordField.bytes order)

/-- Both orders write the fields of the bins and read the same bins from them, or refuse bins whose
features no header can count. -/
inductive Mirrored {β : Type} (features : Nat) (fields : β → List RecordField)
    (encode : ByteOrder → List β → Except Fault Bytes)
    (decode : ByteOrder → Bytes → Except Fault (List β)) (bins received : List β) : Prop
  | written (there : ∀ order,encode order bins = .ok (fieldBytes fields order bins))
    (back : ∀ order,decode order (fieldBytes fields order bins) = .ok received) :
    Mirrored features fields encode decode bins received
  | refused (many : 2^31 ≤ features) (some : bins ≠ [])
    (both : ∀ order,encode order bins = .error .overflow) :
    Mirrored features fields encode decode bins received

end Codec

/-- A copy as it is read back: its index is that of its key. -/
def RegionBin.received (b : RegionBin Binary32) : RegionBin Binary32 :=
  .of b.key.region ⟨b.key.bin,b.bin.observations,b.bin.passes,b.bin.features⟩

theorem lowFirst_reverse (width n : Nat) : (Word.lowFirst width n).reverse =
    (List.range width).map fun k => UInt8.ofNat (n/256^(width-1-k)%256) := by
  induction width generalizing n with
  | zero => rfl
  | succ width ih =>
    have first : (List.range width).map (fun k => UInt8.ofNat (n/256/256^(width-1-k)%256)) =
        (List.range width).map fun k => UInt8.ofNat (n/256^(width+1-1-k)%256) := by
      apply List.map_congr_left
      intro k hk
      have low := List.mem_range.mp hk
      have power : width+1-1-k = width-1-k+1 := by omega
      rw [Nat.div_div_eq_div_mul,power,Nat.pow_succ']
    rw [Word.lowFirst,List.reverse_cons,ih,first,List.range_succ,List.map_append]
    simp

theorem encode_eq_bytes {f : RecordField} (order : ByteOrder) {width n : Nat}
    (same : f.width = width) (bits : f.pattern = n) : Word.encode order width n = f.bytes order := by
  subst same bits
  have most : (Word.lowFirst f.width f.pattern).reverse = f.mostFirst := lowFirst_reverse _ _
  cases order with
  | big => exact most
  | little => rw [Word.encode,RecordField.bytes,← most,List.reverse_reverse]

/-- The two's complement of a signed word is the word. -/
theorem toInt_emod {width : Nat} (n : BitVec width) : (n.toInt%2^width).toNat = n.toNat := by
  have low : n.toNat%2^width = n.toNat := Nat.mod_eq_of_lt n.isLt
  have whole : (2 : Int)^width = (2^width : Nat) := by simp
  rw [BitVec.toInt_eq_toNat_bmod,whole,Int.bmod_emod,← Int.natCast_mod,low,Int.toNat_natCast]

namespace Codec

section

variable (c : Codec)

theorem int32_eq (n : Int32) : c.int32 n = RecordField.bytes c.order (.integer 4 n.toInt) :=
  encode_eq_bytes _ rfl (toInt_emod n.toBitVec)

theorem int64_eq (n : Int64) : c.int64 n = RecordField.bytes c.order (.integer 8 n.toInt) :=
  encode_eq_bytes _ rfl (toInt_emod n.toBitVec)

/-- A count is narrowed as its field is. -/
theorem count_eq (n : Nat) : c.int32 (Int32.ofNat n) = RecordField.bytes c.order (.integer 4 n) := by
  refine encode_eq_bytes _ rfl ?_
  rw [RecordField.pattern,Int32.toUInt32_ofNat',UInt32.toNat_ofNat']
  omega

/-- A feature is copied in the machine's order and reversed in the other one. -/
theorem float_eq (x : Binary32) : c.float x = RecordField.bytes c.order (.feature x) := by
  have own (order : ByteOrder) :
      Word.encode order 4 x.bits.toNat = RecordField.bytes order (.feature x) :=
    encode_eq_bytes order rfl rfl
  unfold float
  rw [own]
  obtain ⟨order,host,_⟩ := c
  cases order <;> cases host <;> simp [RecordField.bytes]

theorem floats_fields (xs : List Binary32) :
    c.floats xs = (xs.map RecordField.feature).flatMap (RecordField.bytes c.order) := by
  rw [floats_eq,List.flatMap_map]
  exact List.flatMap_congr fun x _ => c.float_eq x

theorem spatialRecord_fields (b : SpatialBin Binary32) :
    c.spatialRecord b = (spatialFields b).flatMap (RecordField.bytes c.order) := by
  rw [spatialRecord,record,count_eq,int64_eq,int32_eq,floats_fields]
  simp [spatialFields]

theorem regionRecord_fields (b : RegionBin Binary32) :
    c.regionRecord b = (regionFields b).flatMap (RecordField.bytes c.order) := by
  rw [regionRecord,record,count_eq,int64_eq,floats_fields]
  simp [regionFields,int32_eq]

end

variable {c : Codec}

theorem encodeSpatial_fields {bins : List (SpatialBin Binary32)}
    (fits : ∀ b ∈ bins,c.Fits b.features) :
    c.encodeSpatial bins = .ok (fieldBytes spatialFields c.order bins) :=
  encodeSpatial_eq_ok_iff.mpr
    ⟨fits,List.flatMap_congr fun b _ => (c.spatialRecord_fields b).symm⟩

theorem encodeRegion_fields {bins : List (RegionBin Binary32)}
    (fits : ∀ b ∈ bins,c.Fits b.bin.features) :
    c.encodeRegion bins = .ok (fieldBytes regionFields c.order bins) :=
  encodeRegion_eq_ok_iff.mpr
    ⟨fits,List.flatMap_congr fun b _ => (c.regionRecord_fields b).symm⟩

/-- The index that a copy's bin has of its own is not written, so it is not read back either. -/
theorem decodeRegion_received {bins : List (RegionBin Binary32)}
    (fits : ∀ b ∈ bins,c.Fits b.bin.features) :
    c.decodeRegion (fieldBytes regionFields c.order bins) =
      .ok (bins.map RegionBin.received) := by
  have received : ∀ b ∈ bins.map RegionBin.received,
      c.Fits b.bin.features ∧ b.key.bin = b.bin.index := by
    intro b hb
    obtain ⟨own,mem,rfl⟩ := List.mem_map.mp hb
    exact ⟨fits own mem,rfl⟩
  have bytes : fieldBytes regionFields c.order (bins.map RegionBin.received) =
      fieldBytes regionFields c.order bins := by
    rw [fieldBytes,List.flatMap_map]
    rfl
  rw [← bytes]
  exact decodeRegion_encodeRegion (encodeRegion_fields fun b hb => (received b hb).1)
    fun b hb => (received b hb).2

/-- The first bin is refused, and with it all. -/
theorem encodeAll_torn {β : Type} {write : β → Written} {bins : List β} (some : bins ≠ [])
    (torn : ∀ b ∈ bins,∃ head,write b = (.error .overflow,head)) :
    encodeAll write bins = .error .overflow := by
  obtain ⟨b,bs,rfl⟩ := List.exists_cons_of_ne_nil some
  obtain ⟨head,first⟩ := torn b (by simp)
  rw [encodeAll,List.mapM_cons,first]
  rfl

/-- Features that a header can count fit, and so do those of no bins at all. -/
theorem fits_of_few {β : Type} {bins : List β} {xs : β → List Binary32} {features : Nat}
    (host : ByteOrder) (same : ∀ b ∈ bins,(xs b).length = features)
    (few : features < 2^31 ∨ bins = []) (order : ByteOrder) :
    ∀ b ∈ bins,Fits ⟨order,host,features⟩ (xs b) :=
  fun b hb => ⟨same b hb,few.resolve_right (List.ne_nil_of_mem hb)⟩

theorem Mirrored.of_few {β : Type} {features : Nat} {fields : β → List RecordField}
    {encode : ByteOrder → List β → Except Fault Bytes}
    {decode : ByteOrder → Bytes → Except Fault (List β)} {bins received : List β}
    (few : features < 2^31 ∨ bins = [] → ∀ order,
      encode order bins = .ok (fieldBytes fields order bins) ∧
      decode order (fieldBytes fields order bins) = .ok received)
    (many : 2^31 ≤ features → bins ≠ [] → ∀ order,encode order bins = .error .overflow) :
    Mirrored features fields encode decode bins received := by
  by_cases low : features < 2^31 ∨ bins = []
  · exact .written (fun order => (few low order).1) fun order => (few low order).2
  · obtain ⟨beyond,some⟩ := not_or.mp low
    exact .refused (Nat.le_of_not_lt beyond) some (many (Nat.le_of_not_lt beyond) some)

end Codec

/-- Bins with the codec's number of features are the same fields in both byte orders, the bytes of each
in opposite directions, whichever order the machine has; and each order reads from its own bytes what
the other one reads from its own. -/
theorem orders_mirrored (host : ByteOrder) (features : Nat) :
    (∀ bins : List (SpatialBin Binary32),(∀ b ∈ bins,b.features.length = features) →
      Codec.Mirrored features Codec.spatialFields
        (fun order => Codec.encodeSpatial ⟨order,host,features⟩)
        (fun order => Codec.decodeSpatial ⟨order,host,features⟩) bins bins) ∧
    ∀ bins : List (RegionBin Binary32),(∀ b ∈ bins,b.bin.features.length = features) →
      Codec.Mirrored features Codec.regionFields
        (fun order => Codec.encodeRegion ⟨order,host,features⟩)
        (fun order => Codec.decodeRegion ⟨order,host,features⟩) bins
        (bins.map RegionBin.received) := by
  constructor
  · intro bins same
    refine .of_few (fun few order => ?_) fun many some order => ?_
    · have there := Codec.encodeSpatial_fields (Codec.fits_of_few host same few order)
      exact ⟨there,Codec.decodeSpatial_encodeSpatial there⟩
    · exact Codec.encodeAll_torn some fun b hb => ⟨_,Codec.write_torn (same b hb) many _⟩
  · intro bins same
    refine .of_few (fun few order => ?_) fun many some order => ?_
    · have fits := Codec.fits_of_few host same few order
      exact ⟨Codec.encodeRegion_fields fits,Codec.decodeRegion_received fits⟩
    · exact Codec.encodeAll_torn some fun b hb => ⟨_,Codec.write_torn (same b hb) many _⟩

/-- A negative index and a NaN with a payload, in the machine's order and in the other one. -/
theorem orders_mirrored_signs :
    Codec.encodeSpatial ⟨.big,.native,1⟩ [⟨-2,3,[⟨0xffc00001⟩]⟩] =
      .ok [255,255,255,255,255,255,255,254,0,0,0,3,0,0,0,1,255,192,0,1] ∧
    Codec.encodeSpatial ⟨.little,.native,1⟩ [⟨-2,3,[⟨0xffc00001⟩]⟩] =
      .ok [254,255,255,255,255,255,255,255,3,0,0,0,1,0,0,0,1,0,192,255] ∧
    Codec.decodeSpatial ⟨.big,.native,1⟩
        [255,255,255,255,255,255,255,254,0,0,0,3,0,0,0,1,255,192,0,1] =
      Codec.decodeSpatial ⟨.little,.native,1⟩
        [254,255,255,255,255,255,255,255,3,0,0,0,1,0,0,0,1,0,192,255] := by
  have big : Codec.fieldBytes Codec.spatialFields .big [⟨-2,3,[⟨0xffc00001⟩]⟩] =
      [255,255,255,255,255,255,255,254,0,0,0,3,0,0,0,1,255,192,0,1] := by decide
  have little : Codec.fieldBytes Codec.spatialFields .little [⟨-2,3,[⟨0xffc00001⟩]⟩] =
      [254,255,255,255,255,255,255,255,3,0,0,0,1,0,0,0,1,0,192,255] := by decide
  rw [← big,← little]
  obtain ⟨there,back⟩ | ⟨many,_,_⟩ :=
    (orders_mirrored .native 1).1 [⟨-2,3,[⟨0xffc00001⟩]⟩] (by decide)
  · exact ⟨there .big,there .little,(back .big).trans (back .little).symm⟩
  · exact absurd many (by decide)

end GlobeBins

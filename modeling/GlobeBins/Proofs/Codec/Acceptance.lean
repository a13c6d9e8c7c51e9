import GlobeBins.Proofs.Guarded.Records

namespace GlobeBins

namespace Codec

variable (c : Codec)

/-- Size of a record with a header of that width. -/
def sizeBehind (header : Nat) : Nat := header+4*c.features

/-- Feature count of the record in front, the last field of its header. -/
def countIn (header : Nat) (b : Bytes) : Int := (c.toInt32 ((b.drop (header-4)).take 4)).toInt

/-- The record in front is there with all its features. -/
structure Whole (header : Nat) (b : Bytes) : Prop where
  length : c.sizeBehind header ≤ b.length
  count : c.countIn header b = c.features

/-- What is wrong with the record in front. -/
inductive Defect (header : Nat) (b : Bytes) : Fault → Prop
  | header (short : b.length < header) : Defect header b (.truncated header b.length)
  | count (there : header ≤ b.length) (differs : c.countIn header b ≠ c.features) :
    Defect header b (.featureCount c.features (c.countIn header b).toNat)
  | features (there : header ≤ b.length) (same : c.countIn header b = c.features)
    (short : b.length-header < 4*c.features) :
    Defect header b (.truncated (4*c.features) (b.length-header))

/-- Records of one size with the codec's feature count, and no other bytes. -/
structure Format (header : Nat) (b : Bytes) : Prop where
  size : c.sizeBehind header ∣ b.length
  counts : ∀ n,n*c.sizeBehind header < b.length →
    c.countIn header (b.drop (n*c.sizeBehind header)) = c.features

variable {c}

theorem Defect.isCodec {header : Nat} {b : Bytes} {f : Fault} (h : c.Defect header b f) :
    f.isCodec = true := by
  cases h <;> rfl

theorem Defect.not_whole {header : Nat} {b : Bytes} {f : Fault} (h : c.Defect header b f) :
    ¬c.Whole header b := by
  intro whole
  have length := whole.length
  rw [sizeBehind] at length
  cases h with
  | header short => omega
  | count _ differs => exact differs whole.count
  | features _ _ short => omega

theorem int32_toInt32 {b : Bytes} (h : b.length = 4) : c.int32 (c.toInt32 b) = b := by
  have low := Word.decode_lt c.order b
  rw [h] at low
  have bits : (c.toInt32 b).toUInt32.toNat = Word.decode c.order b := by
    rw [toInt32,Int32.toUInt32,UInt32.toInt32]
    exact UInt32.toNat_ofNat_of_lt' low
  rw [int32,bits,← h,Word.encode_decode]

theorem int64_toInt64 {b : Bytes} (h : b.length = 8) : c.int64 (c.toInt64 b) = b := by
  have low := Word.decode_lt c.order b
  rw [h] at low
  have bits : (c.toInt64 b).toUInt64.toNat = Word.decode c.order b := by
    rw [toInt64,Int64.toUInt64,UInt64.toInt64]
    exact UInt64.toNat_ofNat_of_lt' low
  rw [int64,bits,← h,Word.encode_decode]

/-- Any bits are a feature, and are written as they were. -/
theorem floats_toFloats {n : Nat} {b : Bytes} (h : 4*n ≤ b.length) :
    c.floats (c.toFloats n b) = b.take (4*n) := by
  rw [floats_eq]
  induction n generalizing b with
  | zero => rfl
  | succ n ih =>
    have rest : 4*n ≤ (b.drop 4).length := by
      rw [List.length_drop]
      omega
    have width : (b.take 4).length = 4 := by
      rw [List.length_take]
      omega
    have first (w : Bytes) (width : w.length = 4) :
        Word.encode c.host 4 (UInt32.ofNat (Word.decode c.host w)).toNat = w := by
      have low := Word.decode_lt c.host w
      rw [width] at low
      rw [UInt32.toNat_ofNat_of_lt' low,← width,Word.encode_decode]
    have word : c.float ⟨UInt32.ofNat (Word.decode c.host
        (if c.order = c.host then b.take 4 else (b.take 4).reverse))⟩ = b.take 4 := by
      unfold float
      split
      · rw [first _ width]
      · rw [first _ (by rw [List.length_reverse,width]),List.reverse_reverse]
    rw [toFloats,List.flatMap_cons,word,ih rest,Nat.mul_succ,Nat.add_comm,List.take_add]

theorem toFloats_length (n : Nat) (b : Bytes) : (c.toFloats n b).length = n := by
  induction n generalizing b with
  | zero => rfl
  | succ n ih => rw [toFloats,List.length_cons,ih]

theorem readFeatures_other {count : Int32} (b : Bytes) (h : count.toInt ≠ c.features) :
    c.readFeatures count b = (.error (.featureCount c.features count.toInt.toNat),b) := by
  have lt : count < 0 ↔ count.toInt < 0 := Int32.lt_iff_toInt_lt
  rw [readFeatures]
  by_cases negative : count < 0
  · have none : count.toInt.toNat = 0 := by
      rw [lt] at negative
      omega
    rw [if_pos negative,none]
  · have other : count.toInt.toNat ≠ c.features := by
      rw [lt] at negative
      omega
    rw [if_neg negative,checkCount,if_neg other]

/-- With the right count it is the bytes that decide. -/
theorem readFeatures_same {count : Int32} (b : Bytes) (h : count.toInt = c.features) :
    c.readFeatures count b =
      if 4*c.features ≤ b.length then (.ok (c.toFloats c.features b),b.drop (4*c.features))
      else (.error (.truncated (4*c.features) b.length),b) := by
  have notNegative : ¬count < 0 := by
    rw [Int32.lt_iff_toInt_lt,h]
    exact Int.not_lt.mpr (Int.natCast_nonneg _)
  have same : count.toInt.toNat = c.features := by rw [h,Int.toNat_natCast]
  rw [readFeatures,if_neg notNegative,same,checkCount,if_pos rfl]
  simp only [holds_iff]

/-- A reading takes a whole record, which is what is written for its bin, or finds a defect. -/
inductive Step {β : Type} (c : Codec) (header : Nat) (write : β → Written) (b : Bytes) :
    Read β → Prop
  | taken {x : β} (whole : c.Whole header b)
    (written : write x = (.ok (),b.take (c.sizeBehind header))) :
    Step c header write b (.ok x,b.drop (c.sizeBehind header))
  | refused {f : Fault} {rest : Bytes} (defect : c.Defect header b f) :
    Step c header write b (.error f,rest)

theorem features_lt {header : Nat} {b : Bytes} (same : c.countIn header b = c.features) :
    c.features < 2^31 := by
  have below := (c.toInt32 ((b.drop (header-4)).take 4)).toInt_lt
  rw [← countIn,same] at below
  omega

/-- The count of a whole record is the bytes that are written for it. -/
theorem int32_features {header : Nat} {b : Bytes} (four : 4 ≤ header) (there : header ≤ b.length)
    (same : c.countIn header b = c.features) :
    c.int32 (Int32.ofNat c.features) = (b.drop (header-4)).take 4 := by
  have width : ((b.drop (header-4)).take 4).length = 4 := by
    rw [List.length_take,List.length_drop]
    omega
  have back : Int32.ofNat c.features = c.toInt32 ((b.drop (header-4)).take 4) := by
    rw [← Int32.toInt_inj,Int32.toInt_ofNat_of_lt (features_lt same),← same,countIn]
  rw [back,int32_toInt32 width]

/-- A whole record is its first fields, its count and its features. -/
theorem Whole.record_eq {header : Nat} {b : Bytes} (h : c.Whole header b) (four : 4 ≤ header) :
    c.record (b.take (header-4)) (c.toFloats c.features (b.drop header)) =
      b.take (c.sizeBehind header) := by
  have size := h.length
  rw [sizeBehind] at size
  have enough : 4*c.features ≤ (b.drop header).length := by
    rw [List.length_drop]
    omega
  have front : b.take header = b.take (header-4)++(b.drop (header-4)).take 4 := by
    rw [← List.take_add,Nat.sub_add_cancel four]
  rw [Codec.record,toFloats_length,floats_toFloats enough,int32_features four (by omega) h.count,
    sizeBehind,List.take_add,front,List.append_assoc]

/-- Behind a header that is there, the count and the features decide. -/
theorem step_of_header {β : Type} {header : Nat} {write : β → Written} {b : Bytes}
    {fields : Bytes} {bin : List Binary32 → β} (four : 4 ≤ header) (there : header ≤ b.length)
    (head : b.take (header-4) = fields) (written : ∀ xs,write (bin xs) = c.write fields xs) :
    let features := c.readFeatures (c.toInt32 ((b.drop (header-4)).take 4)) (b.drop header)
    c.Step header write b (features.1.map bin,features.2) := by
  have left : (b.drop header).length = b.length-header := List.length_drop
  by_cases same : c.countIn header b = c.features
  · rw [readFeatures_same _ same]
    by_cases enough : 4*c.features ≤ (b.drop header).length
    · rw [if_pos enough]
      have whole : c.Whole header b := ⟨by rw [sizeBehind]; omega,same⟩
      have fits : c.Fits (c.toFloats c.features (b.drop header)) :=
        ⟨c.toFloats_length _ _,features_lt same⟩
      have record : write (bin (c.toFloats c.features (b.drop header))) =
          (.ok (),b.take (c.sizeBehind header)) := by
        rw [written,write_of_fits fits,← head,whole.record_eq four]
      have behind : (b.drop header).drop (4*c.features) = b.drop (c.sizeBehind header) := by
        rw [List.drop_drop,sizeBehind]
      simp only [behind]
      exact .taken whole record
    · rw [if_neg enough,left]
      exact .refused (.features there same (by omega))
  · rw [readFeatures_other _ same]
    exact .refused (.count there same)

theorem readSpatial_step (b : Bytes) :
    c.Step spatialHeader c.writeSpatial b (c.readSpatial b) := by
  rw [readSpatial]
  by_cases there : spatialHeader ≤ b.length
  · rw [if_pos ((holds_iff _ _).mpr there)]
    rw [spatialHeader] at there
    have index : (b.take 8).length = 8 := by
      rw [List.length_take]
      omega
    have observations : ((b.drop 8).take 4).length = 4 := by
      rw [List.length_take,List.length_drop]
      omega
    have head : b.take 12 =
        c.int64 (c.toInt64 (b.take 8))++c.int32 (c.toInt32 ((b.drop 8).take 4)) := by
      rw [int64_toInt64 index,int32_toInt32 observations,← List.take_add]
    exact step_of_header (by decide) there head fun _ => rfl
  · rw [if_neg fun h => there ((holds_iff _ _).mp h)]
    exact .refused (.header (Nat.lt_of_not_le there))

theorem readRegion_step (b : Bytes) : c.Step regionHeader c.writeRegion b (c.readRegion b) := by
  rw [readRegion]
  by_cases there : regionHeader ≤ b.length
  · rw [if_pos ((holds_iff _ _).mpr there)]
    rw [regionHeader] at there
    have region : (b.take 4).length = 4 := by
      rw [List.length_take]
      omega
    have index : ((b.drop 4).take 8).length = 8 := by
      rw [List.length_take,List.length_drop]
      omega
    have count (n : Nat) (low : n+4 ≤ 20) : ((b.drop n).take 4).length = 4 := by
      rw [List.length_take,List.length_drop]
      omega
    have head : b.take 20 = c.int32 (c.toInt32 (b.take 4))++c.int64 (c.toInt64 ((b.drop 4).take 8))++
        c.int32 (c.toInt32 ((b.drop 12).take 4))++c.int32 (c.toInt32 ((b.drop 16).take 4)) := by
      rw [int32_toInt32 region,int64_toInt64 index,int32_toInt32 (count 12 (by decide)),
        int32_toInt32 (count 16 (by decide)),← List.take_add,← List.take_add,← List.take_add]
    exact step_of_header (by decide) there head fun _ => rfl
  · rw [if_neg fun h => there ((holds_iff _ _).mp h)]
    exact .refused (.header (Nat.lt_of_not_le there))

section

variable {β : Type} {header : Nat} {write : β → Written}

/-- What reading a whole string comes to. -/
inductive Verdict (c : Codec) (header : Nat) (write : β → Written) (b : Bytes) :
    Except Fault (List β) → Prop
  | accepted {bins : List β} (written : encodeAll write bins = .ok b)
    (length : bins.length*c.sizeBehind header = b.length)
    (counts : ∀ n,n*c.sizeBehind header < b.length →
      c.countIn header (b.drop (n*c.sizeBehind header)) = c.features) :
    Verdict c header write b (.ok bins)
  | refused {f : Fault} (n : Nat)
    (before : ∀ m < n,c.Whole header (b.drop (m*c.sizeBehind header)))
    (begun : n*c.sizeBehind header < b.length)
    (defect : c.Defect header (b.drop (n*c.sizeBehind header)) f) :
    Verdict c header write b (.error f)

theorem encodeAll_cons {x : β} {xs : List β} {b b' : Bytes} (first : write x = (.ok (),b))
    (others : encodeAll write xs = .ok b') : encodeAll write (x::xs) = .ok (b++b') := by
  rw [encodeAll_eq_ok_iff] at others ⊢
  obtain ⟨written,rfl⟩ := others
  rw [List.flatMap_cons,first]
  refine ⟨?_,rfl⟩
  intro y hy
  rcases List.mem_cons.mp hy with rfl | hy
  · rw [first]
  · exact written y hy

/-- A whole record in front of what a verdict is known of. -/
theorem Verdict.behind {b : Bytes} {x : β} {r : Except Fault (List β)} (whole : c.Whole header b)
    (written : write x = (.ok (),b.take (c.sizeBehind header)))
    (rest : Verdict c header write (b.drop (c.sizeBehind header)) r) :
    Verdict c header write b (r.map (x::·)) := by
  have there := whole.length
  have left : (b.drop (c.sizeBehind header)).length = b.length-c.sizeBehind header :=
    List.length_drop
  have far (n : Nat) : (b.drop (c.sizeBehind header)).drop (n*c.sizeBehind header) =
      b.drop ((n+1)*c.sizeBehind header) := by
    rw [List.drop_drop,Nat.succ_mul,Nat.add_comm]
  cases rest with
  | @accepted bins written' length counts =>
    refine .accepted ?_ ?_ ?_
    · rw [encodeAll_cons written written',List.take_append_drop]
    · rw [List.length_cons,Nat.succ_mul,length,left]
      omega
    · intro n begun
      cases n with
      | zero =>
        rw [Nat.zero_mul,List.drop_zero]
        exact whole.count
      | succ n =>
        rw [← far]
        refine counts n ?_
        rw [Nat.succ_mul] at begun
        omega
  | @refused f n before begun defect =>
    refine .refused (n+1) ?_ ?_ (far n ▸ defect)
    · intro m hm
      cases m with
      | zero =>
        rw [Nat.zero_mul,List.drop_zero]
        exact whole
      | succ m =>
        rw [← far]
        exact before m (Nat.lt_of_succ_lt_succ hm)
    · rw [Nat.succ_mul]
      omega

/-- The loop over a string keeps the verdict, whatever it has read. -/
theorem decodeFrom_verdict {read : Bytes → Read β} (step : ∀ b,c.Step header write b (read b))
    (some : 0 < header) (b : Bytes) : Verdict c header write b (decodeFrom read b.length [] b) := by
  have size : 0 < c.sizeBehind header := Nat.add_pos_left some _
  refine decodeFrom_induction (P := Verdict c header write) ?_ ?_ ?_ ?_ b
  · intro b x rest taken
    have here := step b
    rw [taken] at here
    cases here with
    | taken whole =>
      have there := whole.length
      rw [List.length_drop]
      omega
  · refine .accepted rfl (Nat.zero_mul _) ?_
    intro n begun
    exact absurd begun (Nat.not_lt_zero _)
  · intro b f rest ne refused
    have here := step b
    rw [refused] at here
    cases here with
    | refused defect =>
      refine .refused 0 (fun m hm => absurd hm (Nat.not_lt_zero m)) ?_ ?_
      · rw [Nat.zero_mul]
        exact List.length_pos_iff.mpr ne
      · rw [Nat.zero_mul]
        exact defect
  · intro b x rest r _ taken others
    have here := step b
    rw [taken] at here
    cases here with
    | taken whole written => exact others.behind whole written

/-- In records of one size with the right count there is no defect. -/
theorem Format.whole {b : Bytes} (h : c.Format header b) {n : Nat}
    (begun : n*c.sizeBehind header < b.length) :
    c.Whole header (b.drop (n*c.sizeBehind header)) := by
  obtain ⟨k,length⟩ := h.size
  refine ⟨?_,h.counts n begun⟩
  rw [length,Nat.mul_comm] at begun
  have next : n+1 ≤ k := Nat.lt_of_mul_lt_mul_left begun
  have room := Nat.mul_le_mul_left (c.sizeBehind header) next
  rw [List.length_drop,length,Nat.mul_comm n]
  rw [Nat.mul_succ] at room
  omega

end

/-- Reading a string gives bins exactly if it is in the format, and then they are written as that very
string; else the first record that is not whole is to blame. -/
structure Exact {β : Type} (c : Codec) (header : Nat) (encode : List β → Except Fault Bytes)
    (decode : Bytes → Except Fault (List β)) (b : Bytes) : Prop where
  accepted : (∃ bins,decode b = .ok bins) ↔ c.Format header b
  same : ∀ bins,decode b = .ok bins →
    encode bins = .ok b ∧ bins.length*c.sizeBehind header = b.length
  refused : ∀ f,decode b = .error f → f.isCodec = true ∧
    ∃ n,(∀ m < n,c.Whole header (b.drop (m*c.sizeBehind header))) ∧
      n*c.sizeBehind header < b.length ∧ c.Defect header (b.drop (n*c.sizeBehind header)) f

theorem Exact.of_steps {β : Type} {header : Nat} {write : β → Written} {read : Bytes → Read β}
    (step : ∀ b,c.Step header write b (read b)) (some : 0 < header) (b : Bytes) :
    c.Exact header (encodeAll write) (fun b => decodeFrom read b.length [] b) b := by
  have verdict := decodeFrom_verdict step some b
  generalize result : decodeFrom read b.length [] b = r at verdict
  cases verdict with
  | @accepted bins written length counts =>
    constructor
    case accepted => exact ⟨fun _ => ⟨⟨bins.length,by rw [← length,Nat.mul_comm]⟩,counts⟩,
      fun _ => ⟨bins,result⟩⟩
    case same =>
      intro other eq
      cases result.symm.trans eq
      exact ⟨written,length⟩
    case refused =>
      intro f eq
      cases result.symm.trans eq
  | @refused f n before begun defect =>
    constructor
    case accepted =>
      constructor
      · intro h
        obtain ⟨bins,eq⟩ := h
        cases result.symm.trans eq
      · intro format
        exact absurd (format.whole begun) defect.not_whole
    case same =>
      intro bins eq
      cases result.symm.trans eq
    case refused =>
      intro g eq
      cases result.symm.trans eq
      exact ⟨defect.isCodec,n,before,begun,defect⟩

theorem Step.shorter {β : Type} {header : Nat} {write : β → Written} {b rest : Bytes} {x : β}
    (h : c.Step header write b (.ok x,rest)) (some : 0 < header) : rest.length < b.length := by
  cases h with
  | taken whole =>
    have there := whole.length
    rw [sizeBehind] at there
    rw [List.length_drop,sizeBehind]
    omega

end Codec

/-- Every byte string is read to an end, field by field and without taking what is not there. It is
accepted exactly if it is in the format, and a refusal names what is wrong with the first record
that is not whole. -/
theorem decoding_exact (c : Codec) (b : Bytes) :
    (c.Exact Codec.spatialHeader c.encodeSpatial c.decodeSpatial b ∧
      ∀ r,Guarded.Drained (Guarded.takeSpatial c) b r ↔ r = (c.decodeSpatial b).mapError .fault) ∧
    c.Exact Codec.regionHeader c.encodeRegion c.decodeRegion b ∧
      ∀ r,Guarded.Drained (Guarded.takeRegion c) b r ↔ r = (c.decodeRegion b).mapError .fault := by
  have spatial : 0 < Codec.spatialHeader := by decide
  have region : 0 < Codec.regionHeader := by decide
  refine ⟨⟨.of_steps Codec.readSpatial_step spatial b,?_⟩,
    .of_steps Codec.readRegion_step region b,?_⟩
  · refine Guarded.drained_iff Guarded.takeSpatial_eq ?_ b
    intro b x rest taken
    exact (taken ▸ Codec.readSpatial_step b).shorter spatial
  · refine Guarded.drained_iff Guarded.takeRegion_eq ?_ b
    intro b x rest taken
    exact (taken ▸ Codec.readRegion_step b).shorter region

end GlobeBins

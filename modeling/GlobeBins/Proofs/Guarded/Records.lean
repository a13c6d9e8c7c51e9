import GlobeBins.Proofs.Codec.RoundTrip
import GlobeBins.Proofs.Guarded.Access

namespace GlobeBins

namespace Guarded

/-- Takes bytes off the front. -/
def takeBytes (n : Nat) (b : Bytes) : Except Stop (Bytes × Bytes) := do
  return (← front b n,b.drop n)

section

variable (c : Codec)

def takeInt32 (b : Bytes) : Except Stop (Int32 × Bytes) := do
  let (field,rest) ← takeBytes 4 b
  return (c.toInt32 field,rest)

def takeInt64 (b : Bytes) : Except Stop (Int64 × Bytes) := do
  let (field,rest) ← takeBytes 8 b
  return (c.toInt64 field,rest)

def takeFloats : Nat → Bytes → Except Stop (List Binary32 × Bytes)
  | 0,b => return ([],b)
  | count+1,b => do
    let (field,b) ← takeBytes 4 b
    let word := if c.order = c.host then field else field.reverse
    let (xs,rest) ← takeFloats count b
    return (⟨UInt32.ofNat (Word.decode c.host word)⟩::xs,rest)

/-- The number of bytes that features take is a word of its own. -/
def takeFeatures (count : Int32) (b : Bytes) : Except Stop (List Binary32 × Bytes) :=
  let n := count.toInt.toNat
  if count < 0 then throw (.fault (.featureCount c.features 0))
  else do
    (c.checkCount n).mapError .fault
    let needed ← word (4*n)
    if b.length < needed then throw (.fault (.truncated needed b.length))
    else takeFloats c n b

def takeSpatial (b : Bytes) : Except Stop (SpatialBin Binary32 × Bytes) :=
  if b.length < Codec.spatialHeader then
    throw (.fault (.truncated Codec.spatialHeader b.length))
  else do
    let (index,b) ← takeInt64 c b
    let (observations,b) ← takeInt32 c b
    let (count,b) ← takeInt32 c b
    let (features,rest) ← takeFeatures c count b
    return (⟨index,observations,features⟩,rest)

def takeRegion (b : Bytes) : Except Stop (RegionBin Binary32 × Bytes) :=
  if b.length < Codec.regionHeader then
    throw (.fault (.truncated Codec.regionHeader b.length))
  else do
    let (region,b) ← takeInt32 c b
    let (index,b) ← takeInt64 c b
    let (observations,b) ← takeInt32 c b
    let (passes,b) ← takeInt32 c b
    let (count,b) ← takeInt32 c b
    let (features,rest) ← takeFeatures c count b
    return (.of region ⟨index,observations,passes,features⟩,rest)

end

/-- A loop that takes values off a buffer until it is empty or there is a reason to stop. -/
inductive Drained {β : Type} (take : Bytes → Except Stop (β × Bytes)) :
    Bytes → Except Stop (List β) → Prop
  | empty : Drained take [] (.ok [])
  | stopped {b : Bytes} {e : Stop} (some : b ≠ []) (stop : take b = .error e) :
    Drained take b (.error e)
  | next {b rest : Bytes} {x : β} {r : Except Stop (List β)} (some : b ≠ [])
    (taken : take b = .ok (x,rest)) (others : Drained take rest r) :
    Drained take b (r.map (x::·))

/-- A reading whose faults are reasons to stop. -/
def ofRead {β : Type} : Codec.Read β → Except Stop (β × Bytes)
  | (.ok x,rest) => .ok (x,rest)
  | (.error f,_) => .error (.fault f)

theorem takeBytes_eq {n : Nat} {b : Bytes} (h : n ≤ b.length) :
    takeBytes n b = .ok (b.take n,b.drop n) := by
  rw [takeBytes,front_eq h]
  rfl

section

variable {c : Codec}

theorem takeInt32_eq {b : Bytes} (h : 4 ≤ b.length) :
    takeInt32 c b = .ok (c.toInt32 (b.take 4),b.drop 4) := by
  rw [takeInt32,takeBytes_eq h]
  rfl

theorem takeInt64_eq {b : Bytes} (h : 8 ≤ b.length) :
    takeInt64 c b = .ok (c.toInt64 (b.take 8),b.drop 8) := by
  rw [takeInt64,takeBytes_eq h]
  rfl

theorem takeFloats_eq {n : Nat} {b : Bytes} (h : 4*n ≤ b.length) :
    takeFloats c n b = .ok (c.toFloats n b,b.drop (4*n)) := by
  induction n generalizing b with
  | zero => rfl
  | succ n ih =>
    have rest : 4*n ≤ (b.drop 4).length := by
      rw [List.length_drop]
      omega
    have far : (b.drop 4).drop (4*n) = b.drop (4*(n+1)) := by
      rw [List.drop_drop]
      congr 1
      omega
    rw [takeFloats,takeBytes_eq (by omega),ok_bind]
    simp only [ih rest,ok_bind,far]
    rfl

theorem takeFeatures_eq (count : Int32) (b : Bytes) :
    takeFeatures c count b = ofRead (c.readFeatures count b) := by
  simp only [takeFeatures,Codec.readFeatures]
  by_cases negative : count < 0
  · rw [if_pos negative,if_pos negative]
    rfl
  · rw [if_neg negative,if_neg negative]
    cases checked : c.checkCount count.toInt.toNat with
    | error f => rfl
    | ok u =>
      have low : 4*count.toInt.toNat < 2^64 := by
        have limit := count.toInt_lt
        omega
      simp only [Except.mapError,ok_bind,word_eq low]
      by_cases short : b.length < 4*count.toInt.toNat
      · have missing : ¬Codec.holds (4*count.toInt.toNat) b = true :=
          fun h => absurd ((Codec.holds_iff _ _).mp h) (Nat.not_le.mpr short)
        rw [if_pos short,if_neg missing]
        rfl
      · have enough := Nat.le_of_not_lt short
        rw [if_neg short,if_pos ((Codec.holds_iff _ _).mpr enough)]
        exact takeFloats_eq enough

theorem ofRead_bind {α β : Type} (r : Codec.Read α) (f : α → β) :
    (ofRead r >>= fun p => (return (f p.1,p.2) : Except Stop (β × Bytes))) =
      ofRead (r.1.map f,r.2) := by
  rcases r with ⟨_ | _,_⟩ <;> rfl

theorem takeSpatial_eq (b : Bytes) : takeSpatial c b = ofRead (c.readSpatial b) := by
  unfold takeSpatial Codec.readSpatial
  by_cases short : b.length < Codec.spatialHeader
  · have missing : ¬Codec.holds Codec.spatialHeader b = true :=
      fun h => absurd ((Codec.holds_iff _ _).mp h) (Nat.not_le.mpr short)
    rw [if_pos short,if_neg missing]
    rfl
  · have header : 16 ≤ b.length := Nat.le_of_not_lt short
    have there : Codec.holds Codec.spatialHeader b = true := (Codec.holds_iff _ _).mpr header
    have observations : 4 ≤ (b.drop 8).length := by
      rw [List.length_drop]
      omega
    have count : 4 ≤ (b.drop 12).length := by
      rw [List.length_drop]
      omega
    rw [if_neg short,if_pos there,takeInt64_eq (by omega)]
    simp only [ok_bind,takeInt32_eq observations,List.drop_drop,takeInt32_eq count,takeFeatures_eq]
    exact ofRead_bind _ fun xs =>
      SpatialBin.mk (c.toInt64 (b.take 8)) (c.toInt32 ((b.drop 8).take 4)) xs

theorem takeRegion_eq (b : Bytes) : takeRegion c b = ofRead (c.readRegion b) := by
  unfold takeRegion Codec.readRegion
  by_cases short : b.length < Codec.regionHeader
  · have missing : ¬Codec.holds Codec.regionHeader b = true :=
      fun h => absurd ((Codec.holds_iff _ _).mp h) (Nat.not_le.mpr short)
    rw [if_pos short,if_neg missing]
    rfl
  · have header : 24 ≤ b.length := Nat.le_of_not_lt short
    have there : Codec.holds Codec.regionHeader b = true := (Codec.holds_iff _ _).mpr header
    have index : 8 ≤ (b.drop 4).length := by
      rw [List.length_drop]
      omega
    have observations : 4 ≤ (b.drop 12).length := by
      rw [List.length_drop]
      omega
    have passes : 4 ≤ (b.drop 16).length := by
      rw [List.length_drop]
      omega
    have count : 4 ≤ (b.drop 20).length := by
      rw [List.length_drop]
      omega
    rw [if_neg short,if_pos there,takeInt32_eq (by omega)]
    simp only [ok_bind,takeInt64_eq index,List.drop_drop,takeInt32_eq observations,
      takeInt32_eq passes,takeInt32_eq count,takeFeatures_eq]
    exact ofRead_bind _ fun xs => RegionBin.of (c.toInt32 (b.take 4))
      ⟨c.toInt64 ((b.drop 4).take 8),c.toInt32 ((b.drop 12).take 4),
        c.toInt32 ((b.drop 16).take 4),xs⟩

end

section

variable {β : Type} {take : Bytes → Except Stop (β × Bytes)}

/-- A loop ends in one way only. -/
theorem Drained.unique {b : Bytes} {r r' : Except Stop (List β)} (h : Drained take b r)
    (h' : Drained take b r') : r = r' := by
  induction h generalizing r' with
  | empty =>
    cases h' with
    | empty => rfl
    | stopped some _ => exact absurd rfl some
    | next some _ _ => exact absurd rfl some
  | stopped some stop =>
    cases h' with
    | empty => exact absurd rfl some
    | stopped _ stop' =>
      cases stop.symm.trans stop'
      rfl
    | next _ taken _ => cases stop.symm.trans taken
  | next some taken _ ih =>
    cases h' with
    | empty => exact absurd rfl some
    | stopped _ stop => cases taken.symm.trans stop
    | next _ taken' others =>
      cases taken.symm.trans taken'
      rw [ih others]

/-- A loop over readings that each take bytes ends, and as the loop that has a bound does. -/
theorem drained_iff {read : Bytes → Codec.Read β} (step : ∀ b,take b = ofRead (read b))
    (shorter : ∀ {b x rest},read b = (.ok x,rest) → rest.length < b.length) (b : Bytes)
    (r : Except Stop (List β)) :
    Drained take b r ↔ r = (Codec.decodeFrom read b.length [] b).mapError .fault := by
  have ends : Drained take b ((Codec.decodeFrom read b.length [] b).mapError .fault) := by
    refine Codec.decodeFrom_induction (P := fun b r => Drained take b (r.mapError .fault)) shorter
      .empty ?_ ?_ b
    · intro b f rest some refused
      exact .stopped some (by rw [step,refused]; rfl)
    · intro b x rest r some taken others
      have next := Drained.next some (by rw [step,taken]; rfl) others
      have same : (r.mapError Stop.fault).map (x::·) = (r.map (x::·)).mapError .fault := by
        cases r <;> rfl
      rwa [same] at next
  constructor
  · exact fun h => h.unique ends
  · intro h
    rw [h]
    exact ends

end

end Guarded

end GlobeBins

import GlobeBins.Proofs.Guarded.Grids
import GlobeBins.Proofs.Job.Made

namespace GlobeBins

namespace Guarded

/-- What comes of dividing region indices, by reasons to stop and by values. -/
structure Remainders (partitions : Nat) : Prop where
  division : ∀ key,partitionOfRegion partitions key = .error .division ↔
    2^32 ∣ max partitions 1
  overflow : ∀ key,partitionOfRegion partitions key = .error .overflow ↔
    key.region = Int32.minValue ∧ max partitions 1%2^32 = 2^32-1
  stops : ∀ key e,partitionOfRegion partitions key = .error e → e = .division ∨ e = .overflow
  /-- The divisor is what a signed word keeps of the number of partitions. -/
  value : ∀ key id,partitionOfRegion partitions key = .ok id →
    (id : Int) = key.region.toInt%(max partitions 1 : Int).bmod (2^32) ∧ id < max partitions 1 ∧
      (regionRouting partitions).partitionOf key = id
  law : (∀ key,partitionOfRegion partitions key =
    .ok (key.region.toInt%(max partitions 1 : Nat)).toNat) ↔ partitions ≤ 2^31

variable {partitions : Nat}

theorem divisor_toInt (partitions : Nat) : (Int32.ofNat (max partitions 1)).toInt =
    (max partitions 1 : Int).bmod (2^32) := by
  rw [Int32.toInt_ofNat',Int32.size]
  push_cast
  rfl

theorem divisor_eq_zero : Int32.ofNat (max partitions 1) = 0 ↔ 2^32 ∣ max partitions 1 := by
  rw [← Int32.toInt_inj,divisor_toInt,Int32.toInt_zero,Int.bmod_def]
  omega

theorem divisor_eq_minus_one : Int32.ofNat (max partitions 1) = -1 ↔
    max partitions 1%2^32 = 2^32-1 := by
  have minus : (-1 : Int32).toInt = -1 := rfl
  rw [← Int32.toInt_inj,divisor_toInt,minus,Int.bmod_def]
  omega

theorem divisor_natAbs_le (partitions : Nat) :
    ((max partitions 1 : Int).bmod (2^32)).natAbs ≤ min (max partitions 1) (2^31) := by
  rw [Int.bmod_def]
  omega

/-- Up to this number only the sign can be lost. -/
theorem emod_divisor (small : partitions ≤ 2^31) (n : Int) :
    n%(max partitions 1 : Int).bmod (2^32) = n%(max partitions 1 : Nat) := by
  have magnitude : (max partitions 1 : Int).bmod (2^32) = (max partitions 1 : Nat) ∨
      (max partitions 1 : Int).bmod (2^32) = -(max partitions 1 : Nat) := by
    rw [Int.bmod_def]
    omega
  obtain same | opposite := magnitude
  · rw [same]
  · rw [opposite,Int.emod_neg]

/-- Two kinds of numbers cannot divide, and every other gives the plain partition. -/
theorem partitionOfRegion_cases (partitions : Nat) (key : RegionKey) :
    partitionOfRegion partitions key =
      if 2^32 ∣ max partitions 1 then .error .division
      else if key.region = Int32.minValue ∧ max partitions 1%2^32 = 2^32-1 then .error .overflow
      else .ok ((regionRouting partitions).partitionOf key) := by
  rw [partitionOfRegion,remainder]
  simp only [divisor_eq_zero,divisor_eq_minus_one]
  split
  · rfl
  · split <;> rfl

section

variable (divides : ¬2^32 ∣ max partitions 1)

include divides

theorem divisor_ne_zero : (max partitions 1 : Int).bmod (2^32) ≠ 0 := by
  intro zero
  rw [← divisor_toInt,← Int32.toInt_zero,Int32.toInt_inj,divisor_eq_zero] at zero
  exact divides zero

theorem regionRouting_emod (key : RegionKey) : ((regionRouting partitions).partitionOf key : Int) =
    key.region.toInt%(max partitions 1 : Int).bmod (2^32) := by
  simp only [regionRouting,divisor_toInt]
  exact Int.toNat_of_nonneg (Int.emod_nonneg _ (divisor_ne_zero divides))

/-- No remainder is beyond the signed words. -/
theorem regionRouting_lt (key : RegionKey) :
    (regionRouting partitions).partitionOf key < min (max partitions 1) (2^31) := by
  have value := regionRouting_emod divides key
  have low := Int.emod_lt key.region.toInt (divisor_ne_zero divides)
  have most := divisor_natAbs_le partitions
  omega

end

theorem partitionOfRegion_eq_ok {key : RegionKey} {id : Nat}
    (h : partitionOfRegion partitions key = .ok id) : ¬2^32 ∣ max partitions 1 ∧
      (regionRouting partitions).partitionOf key = id := by
  rw [partitionOfRegion_cases] at h
  split at h
  next => cases h
  next divides =>
    split at h
    next => cases h
    next => exact ⟨divides,Except.ok.inj h⟩

/-- As long as at most the sign is lost, the partition is the remainder. -/
theorem partitionOfRegion_law (small : partitions ≤ 2^31) (key : RegionKey) :
    partitionOfRegion partitions key = .ok (key.region.toInt%(max partitions 1 : Nat)).toNat := by
  have divides : ¬2^32 ∣ max partitions 1 := by omega
  have least : ¬(key.region = Int32.minValue ∧ max partitions 1%2^32 = 2^32-1) := by omega
  have value := regionRouting_emod divides key
  rw [emod_divisor small] at value
  rw [partitionOfRegion_cases,if_neg divides,if_neg least,← value,Int.toNat_natCast]

/-- The remainder of -1 is one less than the number of partitions, which no signed word reaches beyond
this bound. -/
theorem small_of_law (h : partitionOfRegion partitions ⟨-1,0⟩ =
    .ok ((-1)%((max partitions 1 : Nat) : Int)).toNat) : partitions ≤ 2^31 := by
  obtain ⟨divides,value⟩ := partitionOfRegion_eq_ok h
  have low := regionRouting_lt divides ⟨-1,0⟩
  have last : (-1)%((max partitions 1 : Nat) : Int) = -1+(max partitions 1 : Nat) := by
    rw [← Int.add_emod_right,Int.emod_eq_of_lt (by omega) (by omega)]
  rw [value,last] at low
  omega

end Guarded

/-- However many partitions there are, indices are divided by what a signed word keeps of their number.
That is the remainder by the number itself exactly up to the magnitude of the least signed word; beyond
it, a divisor of zero and one of -1 stop the division. -/
theorem partitionOfRegion_remainders (partitions : Nat) : Guarded.Remainders partitions := by
  have answer := Guarded.partitionOfRegion_cases partitions
  constructor
  case division =>
    intro key
    rw [answer]
    split
    next divides => simp [divides]
    next divides => split <;> simp [divides]
  case overflow =>
    intro key
    rw [answer]
    split
    next divides =>
      have other : max partitions 1%2^32 ≠ 2^32-1 := by omega
      simp [other]
    next => split <;> simp [*]
  case stops =>
    intro key e fails
    rw [answer] at fails
    split at fails
    next => exact .inl (Except.error.inj fails).symm
    next =>
      split at fails
      next => exact .inr (Except.error.inj fails).symm
      next => cases fails
  case value =>
    intro key id found
    obtain ⟨divides,rfl⟩ := Guarded.partitionOfRegion_eq_ok found
    have low := Guarded.regionRouting_lt divides key
    exact ⟨Guarded.regionRouting_emod divides key,(lt_min_iff.mp low).1,rfl⟩
  case law => exact ⟨fun law => Guarded.small_of_law (law _),Guarded.partitionOfRegion_law⟩

/-- As `plain`, with more partitions than a word of 32 bits can count. -/
def Settings.crowded : Settings := {plain with regionPartitions := 2^32+2}

/-- Valid settings under which the sixth region goes where the remainder of its index by the number of
partitions is not; fewer and more of them cannot divide. -/
theorem crowded_misrouted : Settings.crowded.validate = .ok () ∧
    Guarded.partitionOfRegion Settings.crowded.regionPartitions ⟨5,0⟩ = .ok 1 ∧
    (5 : Int)%(max Settings.crowded.regionPartitions 1 : Nat) = 5 ∧
    Guarded.partitionOfRegion (2^32) ⟨5,0⟩ = .error .division ∧
    Guarded.partitionOfRegion (2^32-1) ⟨Int32.minValue,0⟩ = .error .overflow := by
  refine ⟨by decide,by decide,by decide,by decide,by decide⟩

end GlobeBins

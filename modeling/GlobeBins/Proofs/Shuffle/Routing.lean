import GlobeBins.Proofs.Shuffle.Contract

namespace GlobeBins

section

variable {ρ κ : Type}

theorem arrival_sorted {sources : List (SourceRecords ρ)}
    (sorted : sources.Pairwise fun a b => a.source ≤ b.source) :
    arrival sources = sources.flatMap SourceRecords.records := by
  rw [arrival,List.mergeSort_of_pairwise]
  exact sorted.imp decide_eq_true

/-- Sources numbered as they stand. -/
theorem arrival_numbered (l : List (List ρ)) :
    arrival (l.zipIdx.map fun p => (⟨p.2,p.1⟩ : SourceRecords ρ)) = l.flatten := by
  have sorted : (l.zipIdx.map fun p => (⟨p.2,p.1⟩ : SourceRecords ρ)).Pairwise
      fun a b => a.source ≤ b.source := by
    rw [List.pairwise_map,List.pairwise_iff_getElem]
    intro i j hi hj lt
    simp only [List.getElem_zipIdx]
    omega
  have records : l.zipIdx.flatMap Prod.fst = (l.zipIdx.map Prod.fst).flatten := List.flatMap_def
  rw [arrival_sorted sorted,List.flatMap_map]
  exact records.trans (congrArg List.flatten (List.zipIdx_map_fst 0 l))

variable [Ord κ] {routing : Routing κ} {key : ρ → κ} {sources : List (SourceRecords ρ)}

theorem shuffle_sorted : (shuffle routing key sources).map (fun p => p.groups.flatMap Prod.snd) =
    (List.range routing.partitions).map fun id => sortBy key (share routing key sources id) := by
  simp only [shuffle_eq,List.map_map,Function.comp_def,groupByKey_flatMap]

variable [Std.TransOrd κ] [Std.LawfulEqOrd κ]

/-- A key is merged once, from all of its records. -/
theorem shuffleMerge_flatten {β : Type} (merge : κ → List ρ → β)
    (inside : ∀ k,routing.partitionOf k < routing.partitions) :
    ∃ keys : List κ,keys.Nodup ∧ (∀ k,k ∈ keys ↔ withKey key k (arrival sources) ≠ []) ∧
      (shuffleMerge routing key sources merge).flatten =
        keys.map fun k => merge k (withKey key k (arrival sources)) := by
  have contract : Regrouped routing key sources (shuffle routing key sources) :=
    shuffle_regrouped inside
  refine ⟨(shuffle routing key sources).flatMap fun p => p.groups.map Prod.fst,contract.distinct,
    fun k => mem_keys inside,?_⟩
  rw [shuffleMerge,← List.flatMap_def,List.map_flatMap]
  apply List.flatMap_congr
  intro p hp
  rw [List.map_map]
  apply List.map_congr_left
  intro g hg
  have records := ((mem_groups hp).mp hg).2.2
  exact congrArg (merge g.1) records

end

instance : Std.TransOrd RegionKey :=
  inferInstanceAs (Std.TransCmp (compareLex (compareOn RegionKey.region) (compareOn RegionKey.bin)))

instance : Std.LawfulEqOrd RegionKey where
  compare_self {a} := a.order_self
  eq_of_compare {a b} h := by
    obtain ⟨region,bin⟩ := Ordering.then_eq_eq.mp h
    cases a
    cases b
    simp only [Std.LawfulEqOrd.compare_eq_iff_eq] at region bin
    rw [region,bin]

theorem RegionKey.lt_iff {a b : RegionKey} : compare a b = .lt ↔
    a.region < b.region ∨ a.region = b.region ∧ a.bin < b.bin := by
  have parts : compare a b = .lt ↔ compare a.region b.region = .lt ∨
      compare a.region b.region = .eq ∧ compare a.bin b.bin = .lt := Ordering.then_eq_lt
  rw [parts,Std.LawfulEqOrd.compare_eq_iff_eq]
  simp only [Std.compare_eq_lt]

section

variable {n m : Nat}

theorem toNat_ofNat (h : n < 2^31) : (Int32.ofNat n).toInt.toNat = n := by
  rw [Int32.toInt_ofNat_of_lt h,Int.toNat_natCast]

/-- Numbers keep their order as signed words. -/
theorem ofNat_lt (lt : n < m) (hm : m < 2^31) : Int32.ofNat n < Int32.ofNat m := by
  rw [Int32.lt_iff_toInt_lt,Int32.toInt_ofNat_of_lt (by omega),Int32.toInt_ofNat_of_lt hm]
  omega

theorem ofNat_injective (hn : n < 2^31) (hm : m < 2^31) (h : Int32.ofNat n = Int32.ofNat m) :
    n = m := by
  have value := congrArg (fun x => x.toInt.toNat) h
  simp only [toNat_ofNat hn,toNat_ofNat hm] at value
  exact value

end

namespace RowRouting

variable (r : RowRouting)

theorem partitionOfRow_lt (positive : 0 < r.partitions) (row : Nat) :
    r.partitionOfRow row < r.partitions := by
  simp only [partitionOfRow]
  omega

theorem routing_inside (positive : 0 < r.partitions) (bin : Int64) :
    r.routing.partitionOf bin < r.routing.partitions := r.partitionOfRow_lt positive _

theorem ofLatitudes_partitions {κ : Type} [Coordinate κ] (grid : Grid) (partitions : Nat)
    (south north : κ) : 0 < (ofLatitudes grid partitions south north).partitions := by
  simp only [ofLatitudes,ofRows]
  omega

end RowRouting

section

variable {partitions : Nat}

theorem regionRouting_inside (small : partitions < 2^31) (key : RegionKey) :
    (regionRouting partitions).partitionOf key < (regionRouting partitions).partitions := by
  simp only [regionRouting]
  generalize count_eq : max partitions 1 = count
  have toInt : (Int32.ofNat count).toInt = count := Int32.toInt_ofNat_of_lt (by omega)
  have low := Int.emod_nonneg key.region.toInt (b := count) (by omega)
  have high := Int.emod_lt_of_pos key.region.toInt (b := count) (by omega)
  rw [toInt]
  omega

/-- Region indices are not negative, so however their partitions are counted they keep inside. -/
theorem regionRouting_below {region : Nat} (low : region < 2^31) (bin : Int64) :
    (regionRouting partitions).partitionOf ⟨Int32.ofNat region,bin⟩ <
      (regionRouting partitions).partitions := by
  by_cases small : partitions < 2^31
  · exact regionRouting_inside small _
  · simp only [regionRouting,Int32.toInt_ofNat_of_lt low]
    have rest := Int.natAbs_emod_of_nonneg (Int.natCast_nonneg region)
      (Int32.ofNat (max partitions 1)).toInt
    rw [Int.natAbs_natCast] at rest
    have most := Nat.mod_le region (Int32.ofNat (max partitions 1)).toInt.natAbs
    omega

theorem regionRouting_partitionOf (positive : 0 < partitions) (small : partitions < 2^31)
    {region : Nat} (low : region < 2^31) (bin : Int64) :
    (regionRouting partitions).partitionOf ⟨Int32.ofNat region,bin⟩ = region%partitions := by
  have one : max partitions 1 = partitions := by omega
  simp only [regionRouting,one,Int32.toInt_ofNat_of_lt small,Int32.toInt_ofNat_of_lt low]
  rw [← Int.natCast_mod,Int.toNat_natCast]

end

end GlobeBins

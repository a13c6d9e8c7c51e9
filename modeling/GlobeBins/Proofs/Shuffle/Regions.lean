import GlobeBins.Proofs.Shuffle.Routing

namespace GlobeBins

theorem RegionKey.isLE_iff {a b : RegionKey} : (compare a b).isLE ↔
    a.region < b.region ∨ a.region = b.region ∧ a.bin ≤ b.bin := by
  have parts : (compare a b).isLE ↔ compare a.region b.region = .lt ∨
      compare a.region b.region = .eq ∧ (compare a.bin b.bin).isLE := Ordering.isLE_then_iff_or
  rw [parts,Std.LawfulEqOrd.compare_eq_iff_eq,Std.isLE_compare,Std.compare_eq_lt]

namespace RegionBin

variable {α : Type}

/-- By region, and by index within a region. -/
def Sorted (bs : List (RegionBin α)) : Prop := bs.Pairwise fun a b =>
  a.key.region < b.key.region ∨ a.key.region = b.key.region ∧ a.key.bin ≤ b.key.bin

/-- The bins of a region in the order of the list. -/
def within (r : Int32) (bs : List (RegionBin α)) : List (RegionBin α) :=
  bs.filter fun b => b.key.region = r

/-- A list in pieces: none is empty, each is of one region, and the next one is of another. -/
structure Pieces (bs : List (RegionBin α)) (gs : List (List (RegionBin α))) : Prop where
  joined : gs.flatten = bs
  nonempty : ∀ g ∈ gs,g ≠ []
  one : ∀ g ∈ gs,∀ a ∈ g,∀ b ∈ g,a.key.region = b.key.region
  turns : gs.IsChain fun g h => ∀ a ∈ g,∀ b ∈ h,a.key.region ≠ b.key.region

/-- One piece for each region that occurs, with all bins of the region. -/
structure PerRegion (bs : List (RegionBin α)) (gs : List (List (RegionBin α)))
    (regions : List Int32) : Prop where
  ascending : regions.Pairwise fun r q => r < q
  present : ∀ r,r ∈ regions ↔ ∃ b ∈ bs,b.key.region = r
  pieces : gs = regions.map fun r => within r bs
  inner : ∀ g ∈ gs,g.Pairwise fun a b => a.key.bin ≤ b.key.bin

variable {bs g : List (RegionBin α)} {gs : List (List (RegionBin α))}

theorem within_eq_withKey (r : Int32) (bs : List (RegionBin α)) :
    within r bs = withKey (fun b : RegionBin α => b.key.region) r bs := by
  simp only [within,withKey,Std.LawfulEqOrd.compare_eq_iff_eq]

theorem sorted_sort (bs : List (RegionBin α)) : Sorted (sort bs) := by
  have order : SortedBy RegionBin.key (sort bs) := sortBy_sorted bs
  exact order.imp RegionKey.isLE_iff.mp

/-- Bins of one key keep their order. -/
theorem sort_stable (bs : List (RegionBin α)) (k : RegionKey) :
    (sort bs).filter (fun b => b.key = k) = bs.filter fun b => b.key = k := by
  have kept : withKey RegionBin.key k (sort bs) = withKey RegionBin.key k bs := withKey_sortBy k bs
  simpa only [withKey,Std.LawfulEqOrd.compare_eq_iff_eq] using kept

/-- The pieces are told by these properties: a list is cut in no other way. -/
theorem pieces_iff : Pieces bs gs ↔ groups bs = gs := by
  constructor
  · intro p
    rw [groups,List.splitBy_eq_iff]
    refine ⟨p.joined.symm,fun empty => p.nonempty [] empty rfl,fun g hg => ?_,?_⟩
    · refine List.Pairwise.isChain (List.pairwise_of_forall_mem_list fun a ha b hb => ?_)
      exact beq_iff_eq.mpr (Std.LawfulEqOrd.compare_eq_iff_eq.mpr (p.one g hg a ha b hb))
    · rw [List.isChain_iff_getElem]
      intro i hi
      have hg := p.nonempty _ (List.getElem_mem (Nat.lt_of_succ_lt hi))
      have hh := p.nonempty _ (List.getElem_mem hi)
      have turn := List.isChain_iff_getElem.mp p.turns i hi _ (List.getLast_mem hg) _
        (List.head_mem hh)
      refine ⟨hg,hh,beq_eq_false_iff_ne.mpr fun same => ?_⟩
      exact turn (Std.LawfulEqOrd.compare_eq_iff_eq.mp same)
  · rintro rfl
    have one : ∀ g ∈ groups bs,∀ a ∈ g,∀ b ∈ g,a.key.region = b.key.region :=
      fun g hg a ha b hb => Std.LawfulEqOrd.compare_eq_iff_eq.mp (runs_same_key hg ha hb)
    have cuts := List.isChain_getLast_head_splitBy
      (fun a b : RegionBin α => a.key.groupOrder b.key == .eq) bs
    refine ⟨runs_flatten _ bs,fun g hg empty => nil_notMem_runs bs (empty ▸ hg),one,?_⟩
    rw [List.isChain_iff_getElem] at cuts ⊢
    intro i hi a ha b hb same
    obtain ⟨hg,hh,cut⟩ := cuts i hi
    have last := one _ (List.getElem_mem _) a ha _ (List.getLast_mem hg)
    have first := one _ (List.getElem_mem _) b hb _ (List.head_mem hh)
    refine beq_eq_false_iff_ne.mp cut (Std.LawfulEqOrd.compare_eq_iff_eq.mpr ?_)
    exact last.symm.trans (same.trans first)

theorem pieces_groups (bs : List (RegionBin α)) : Pieces bs (groups bs) := pieces_iff.mpr rfl

/-- The region of a piece. -/
def regionOf (g : List (RegionBin α)) : Int32 :=
  match g with
  | [] => 0
  | b::_ => b.key.region

theorem regionOf_mem (ne : g ≠ []) : ∃ b ∈ g,b.key.region = regionOf g := by
  cases g with
  | nil => exact absurd rfl ne
  | cons b g => exact ⟨b,List.mem_cons_self,rfl⟩

theorem Sorted.sortedBy (h : Sorted bs) : SortedBy (fun b : RegionBin α => b.key.region) bs := by
  refine h.imp fun order => ?_
  show (compare _ _).isLE
  rw [Std.isLE_compare]
  rcases order with before | ⟨same,_⟩
  · exact Std.le_of_lt before
  · exact Std.le_of_eq same

/-- A sorted list has one piece for each region, in the order of the regions. -/
theorem Sorted.perRegion (h : Sorted bs) :
    PerRegion bs (groups bs) ((groups bs).map regionOf) := by
  have pieces := pieces_groups bs
  have whole : ∀ g ∈ groups bs,within (regionOf g) bs = g := by
    intro g hg
    obtain ⟨b,hb,region⟩ := regionOf_mem (pieces.nonempty g hg)
    rw [← region,within_eq_withKey]
    exact (eq_withKey_of_mem_runs h.sortedBy hg hb).symm
  constructor
  case ascending =>
    rw [List.pairwise_map]
    refine (runs_pairwise h.sortedBy).imp_of_mem fun {g g'} hg hg' below => ?_
    obtain ⟨a,ha,here⟩ := regionOf_mem (pieces.nonempty g hg)
    obtain ⟨b,hb,there⟩ := regionOf_mem (pieces.nonempty g' hg')
    rw [← here,← there]
    exact Std.compare_eq_lt.mp (below a ha b hb)
  case present =>
    intro r
    rw [List.mem_map]
    constructor
    · rintro ⟨g,hg,rfl⟩
      obtain ⟨b,hb,region⟩ := regionOf_mem (pieces.nonempty g hg)
      exact ⟨b,pieces.joined ▸ List.mem_flatten_of_mem hg hb,region⟩
    · rintro ⟨b,hb,rfl⟩
      rw [← pieces.joined] at hb
      obtain ⟨g,hg,mem⟩ := List.mem_flatten.mp hb
      obtain ⟨a,ha,region⟩ := regionOf_mem (pieces.nonempty g hg)
      exact ⟨g,hg,region.symm.trans (pieces.one g hg a ha b mem)⟩
  case pieces =>
    rw [List.map_map]
    exact ((List.map_congr_left whole).trans (List.map_id _)).symm
  case inner =>
    intro g hg
    have order : g.Pairwise fun a b =>
        a.key.region < b.key.region ∨ a.key.region = b.key.region ∧ a.key.bin ≤ b.key.bin := by
      rw [← whole g hg]
      exact h.filter _
    refine order.imp_of_mem fun {a b} ha hb step => ?_
    have same := pieces.one g hg a ha b hb
    rcases step with before | ⟨_,le⟩
    · exact absurd before (same ▸ Std.lt_irrefl)
    · exact le

/-- Sorting keeps the bins and leaves those of one key in their order. Whatever the order of a list, it
is cut into pieces of one region in one way only; the pieces of a sorted list are all that it has of
each region, by ascending region and then by index. -/
theorem sorted_pieces (bs sorted : List (RegionBin α)) (order : Sorted sorted) :
    (sort bs).Perm bs ∧ Sorted (sort bs) ∧
      (∀ k : RegionKey,(sort bs).filter (fun b => b.key = k) = bs.filter fun b => b.key = k) ∧
      (∀ gs,Pieces bs gs ↔ groups bs = gs) ∧
      ∃ regions,PerRegion sorted (groups sorted) regions :=
  ⟨sort_perm bs,sorted_sort bs,sort_stable bs,fun _ => pieces_iff,_,order.perRegion⟩

/-- Bins of three regions, one of them before the first, with a cell that comes twice. -/
theorem sorted_pieces_mixed :
    let bin (r : Int32) (i : Int64) (n : Int32) : RegionBin Nat := .of r ⟨i,n,1,[]⟩
    let bs := [bin 2 5 1,bin (-1) 9 2,bin 0 3 3,bin (-1) (-4) 4,bin 2 5 5,bin (-1) 0 6]
    let sorted := [bin (-1) (-4) 4,bin (-1) 0 6,bin (-1) 9 2,bin 0 3 3,bin 2 5 1,bin 2 5 5]
    Sorted sorted ∧ sort bs = sorted ∧ (groups sorted).map List.length = [3,1,2] ∧
      (sort bs).Perm bs ∧ ∃ regions,PerRegion sorted (groups sorted) regions := by
  intro bin bs sorted
  have order : Sorted sorted := by
    unfold Sorted
    decide
  obtain ⟨perm,_,_,_,regions,each⟩ := sorted_pieces bs sorted order
  exact ⟨order,by cbv,by decide,perm,regions,each⟩

end RegionBin

end GlobeBins

import Mathlib
import GlobeBins.Shuffle

namespace GlobeBins

/-- Lists that ascend in an asymmetric order are the same if they have the same members. -/
theorem eq_of_ascending {α : Type} {before : α → α → Prop}
    (asymm : ∀ {a b},before a b → ¬before b a) {l m : List α} (ascending : l.Pairwise before)
    (other : m.Pairwise before) (same : ∀ a,a ∈ l ↔ a ∈ m) : l = m := by
  have nodup {l : List α} (ascending : l.Pairwise before) : l.Nodup := by
    refine ascending.imp ?_
    intro a b lt eq
    subst eq
    exact asymm lt lt
  have perm := (List.perm_ext_iff_of_nodup (nodup ascending) (nodup other)).mpr same
  exact perm.eq_of_pairwise (fun _ _ _ _ lt gt => absurd gt (asymm lt)) ascending other

section

variable {α κ : Type} [Ord κ] (key : α → κ)

/-- Keys do not descend. -/
def SortedBy (l : List α) : Prop := l.Pairwise fun a b => (compare (key a) (key b)).isLE

/-- Every key of the first list is below every key of the second one. -/
def Below (l m : List α) : Prop := ∀ a ∈ l,∀ b ∈ m,compare (key a) (key b) = .lt

/-- The elements of a list that have a key, in order. -/
def withKey (k : κ) (l : List α) : List α := l.filter fun a => compare (key a) k = .eq

/-- Pieces of a list in which the key stays. -/
def runs (l : List α) : List (List α) := l.splitBy fun a b => compare (key a) (key b) == .eq

/-- The sort that regrouping begins with. -/
def sortBy (l : List α) : List α := l.mergeSort fun a b => (compare (key a) (key b)).isLE

/-- A piece with the key of its first element. -/
def keyed : List α → Option (κ × List α)
  | [] => none
  | a::l => some (key a,a::l)

variable {key}

theorem mem_withKey {k : κ} {l : List α} {a : α} :
    a ∈ withKey key k l ↔ a ∈ l ∧ compare (key a) k = .eq := by
  simp [withKey]

theorem sortBy_perm (l : List α) : (sortBy key l).Perm l := List.mergeSort_perm _ _

theorem runs_flatten (key : α → κ) (l : List α) : (runs key l).flatten = l := List.flatten_splitBy _ l

theorem nil_notMem_runs (l : List α) : [] ∉ runs key l := List.nil_notMem_splitBy _ l

theorem groupByKey_eq (l : List α) :
    groupByKey key l = (runs key (sortBy key l)).filterMap (keyed key) := by
  unfold groupByKey
  congr 1

omit [Ord κ] in
theorem keyed_eq_some {m : List α} {g : κ × List α} (h : keyed key m = some g) :
    g.2 = m ∧ ∃ a ∈ m,g.1 = key a := by
  cases m with
  | nil => cases h
  | cons a l =>
    cases h
    exact ⟨rfl,a,by simp,rfl⟩

/-- Nothing is lost, since no piece is empty. -/
theorem groupByKey_flatMap (l : List α) :
    (groupByKey key l).flatMap Prod.snd = sortBy key l := by
  have keep : ∀ ms : List (List α),[] ∉ ms →
      (ms.filterMap (keyed key)).flatMap Prod.snd = ms.flatten := by
    intro ms
    induction ms with
    | nil => simp
    | cons m ms ih =>
      intro none
      cases m with
      | nil => simp at none
      | cons a l =>
        have rest := ih (by simpa using none)
        simp [keyed,rest]
  rw [groupByKey_eq,keep _ (nil_notMem_runs _),runs_flatten]

theorem lt_of_isLE {o : Ordering} (h : o.isLE) (ne : o ≠ .eq) : o = .lt := by
  cases o <;> simp_all

variable [Std.TransOrd κ]

theorem isLE_total (a b : κ) : (compare a b).isLE || (compare b a).isLE := by
  have swap : compare a b = (compare b a).swap := Std.OrientedOrd.eq_swap
  rw [swap]
  cases compare b a <;> rfl

theorem runs_same_key {l m : List α} (h : m ∈ runs key l) {a b : α} (ha : a ∈ m) (hb : b ∈ m) :
    compare (key a) (key b) = .eq := by
  let R (a b : α) : Prop := compare (key a) (key b) = .eq
  have : Trans R R R := ⟨Std.TransCmp.eq_trans⟩
  have : Std.Symm R := ⟨fun _ _ => Std.OrientedCmp.eq_symm⟩
  have chain : m.IsChain R := (List.isChain_of_mem_splitBy h).imp fun _ _ => eq_of_beq
  have pairs := List.isChain_iff_pairwise.mp chain
  exact pairs.forall_of_forall (fun _ _ => Std.ReflOrd.compare_self) ha hb

/-- Neighbouring pieces of a sorted list are in order, and so are all of them, since no piece is
empty. -/
theorem runs_pairwise {l : List α} (h : SortedBy key l) : (runs key l).Pairwise (Below key) := by
  have sorted : (runs key l).flatten.Pairwise fun a b => (compare (key a) (key b)).isLE := by
    rw [runs_flatten]
    exact h
  have cross := List.pairwise_iff_getElem.mp (List.pairwise_flatten.mp sorted).2
  have cuts : (runs key l).IsChain fun m n => ∃ (hm : m ≠ []) (hn : n ≠ []),
      (compare (key (m.getLast hm)) (key (n.head hn)) == .eq) = false :=
    List.isChain_getLast_head_splitBy (fun a b => compare (key a) (key b) == .eq) l
  let R (m n : List α) : Prop := m ≠ [] ∧ n ≠ [] ∧ Below key m n
  have : Trans R R R := by
    constructor
    intro m n o h h'
    obtain ⟨hm,hn,mn⟩ := h
    obtain ⟨_,ho,no⟩ := h'
    refine ⟨hm,ho,?_⟩
    intro a ha c hc
    obtain ⟨b,hb⟩ := List.exists_mem_of_ne_nil n hn
    exact Std.TransCmp.lt_trans (mn a ha b hb) (no b hb c hc)
  have step : (runs key l).IsChain R := by
    rw [List.isChain_iff_getElem]
    intro i hi
    obtain ⟨hm,hn,cut⟩ := List.isChain_iff_getElem.mp cuts i hi
    refine ⟨hm,hn,?_⟩
    intro a ha b hb
    have le := cross i (i+1) (by omega) hi (by omega) _ (List.getLast_mem hm) _ (List.head_mem hn)
    have lt := lt_of_isLE le (by simpa using cut)
    have left := runs_same_key (List.getElem_mem _) ha (List.getLast_mem hm)
    have right := runs_same_key (List.getElem_mem _) (List.head_mem hn) hb
    exact Std.TransCmp.lt_of_lt_of_eq (Std.TransCmp.lt_of_eq_of_lt left lt) right
  have all := List.isChain_iff_pairwise.mp step
  exact all.imp fun r => r.2.2

/-- A piece is what a sorted list has of its key. -/
theorem eq_withKey_of_mem_runs {l m : List α} (h : SortedBy key l) (hm : m ∈ runs key l) {a : α}
    (ha : a ∈ m) : m = withKey key (key a) l := by
  obtain ⟨before,after,split⟩ := List.append_of_mem hm
  have order := runs_pairwise h
  rw [split,List.pairwise_append,List.pairwise_cons] at order
  obtain ⟨_,⟨above,_⟩,below⟩ := order
  have l_eq : l = before.flatten++(m++after.flatten) := by
    rw [← runs_flatten key l,split]
    simp
  have low : withKey key (key a) before.flatten = [] := by
    simp only [withKey,List.filter_eq_nil_iff,List.mem_flatten,decide_eq_true_eq]
    intro x h eq
    obtain ⟨n,hn,hx⟩ := h
    have lt := below n hn m (by simp) x hx a ha
    simp [lt] at eq
  have high : withKey key (key a) after.flatten = [] := by
    simp only [withKey,List.filter_eq_nil_iff,List.mem_flatten,decide_eq_true_eq]
    intro x h eq
    obtain ⟨n,hn,hx⟩ := h
    have lt := above n hn a ha x hx
    rw [Std.OrientedCmp.eq_comm] at eq
    simp [lt] at eq
  have mid : withKey key (key a) m = m := by
    simp only [withKey,List.filter_eq_self,decide_eq_true_eq]
    intro x hx
    exact runs_same_key hm hx ha
  conv_rhs => rw [l_eq]
  simp only [withKey,List.filter_append] at low mid high ⊢
  rw [low,mid,high,List.nil_append,List.append_nil]

theorem sortBy_sorted (l : List α) : SortedBy key (sortBy key l) :=
  List.pairwise_mergeSort (fun _ _ _ => Std.TransCmp.isLE_trans) (fun _ _ => isLE_total _ _) l

/-- Sorting keeps the elements of one key in order. -/
theorem withKey_sortBy (k : κ) (l : List α) : withKey key k (sortBy key l) = withKey key k l := by
  have tied : (withKey key k l).Pairwise fun a b => (compare (key a) (key b)).isLE := by
    apply List.pairwise_of_forall_mem_list
    intro a ha b hb
    have eq := Std.TransCmp.eq_trans (mem_withKey.mp ha).2
      (Std.OrientedCmp.eq_symm (mem_withKey.mp hb).2)
    simp [eq]
  have sub : (withKey key k l).Sublist (sortBy key l) :=
    List.sublist_mergeSort (fun _ _ _ => Std.TransCmp.isLE_trans) (fun _ _ => isLE_total _ _) tied
      List.filter_sublist
  have again : (withKey key k (withKey key k l)).Sublist (withKey key k (sortBy key l)) :=
    sub.filter _
  have same : withKey key k (withKey key k l) = withKey key k l := by simp [withKey]
  rw [same] at again
  exact (again.eq_of_length ((sortBy_perm l).symm.filter _).length_eq).symm

theorem groupByKey_pairwise (l : List α) :
    (groupByKey key l).Pairwise fun g h => compare g.1 h.1 = .lt := by
  rw [groupByKey_eq,List.pairwise_filterMap]
  refine (runs_pairwise (sortBy_sorted l)).imp ?_
  intro m n below g hg h hh
  obtain ⟨_,a,ha,ga⟩ := keyed_eq_some hg
  obtain ⟨_,b,hb,hb'⟩ := keyed_eq_some hh
  rw [ga,hb']
  exact below a ha b hb

/-- A key has a group exactly if a record has the key; the group has all of them in order. -/
theorem mem_groupByKey [Std.LawfulEqOrd κ] {k : κ} {g l : List α} :
    (k,g) ∈ groupByKey key l ↔ g ≠ [] ∧ g = withKey key k l := by
  have whole : ∀ {k' : κ} {m : List α},(k',m) ∈ groupByKey key l →
      m ≠ [] ∧ m = withKey key k' l := by
    intro k' m h
    rw [groupByKey_eq,List.mem_filterMap] at h
    obtain ⟨n,hn,eq⟩ := h
    obtain ⟨hm,a,ha,hk⟩ := keyed_eq_some eq
    simp only at hm hk
    subst hm hk
    refine ⟨List.ne_nil_of_mem ha,?_⟩
    rw [← withKey_sortBy]
    exact eq_withKey_of_mem_runs (sortBy_sorted l) hn ha
  constructor
  · exact whole
  · intro h
    obtain ⟨hg,rfl⟩ := h
    obtain ⟨a,ha⟩ := List.exists_mem_of_ne_nil _ hg
    obtain ⟨ha,hk⟩ := mem_withKey.mp ha
    have mem : a ∈ (groupByKey key l).flatMap Prod.snd := by
      rw [groupByKey_flatMap]
      exact (sortBy_perm l).mem_iff.mpr ha
    obtain ⟨⟨k',m⟩,hm,am⟩ := List.mem_flatMap.mp mem
    have hm' := whole hm
    have eq : k' = k := by
      have ak : compare (key a) k' = .eq := (mem_withKey.mp (hm'.2 ▸ am)).2
      rw [← Std.LawfulEqOrd.eq_of_compare ak,Std.LawfulEqOrd.eq_of_compare hk]
    subst eq
    rw [← hm'.2]
    exact hm

end

end GlobeBins

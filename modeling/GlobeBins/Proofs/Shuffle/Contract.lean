import GlobeBins.Proofs.Shuffle.Groups

namespace GlobeBins

/-- Where a record comes from: its source, which of the outputs given for that source, and the place
in it. -/
structure Origin where
  source : Nat
  output : Nat
  position : Nat
  deriving DecidableEq

/-- Sources in their order, then outputs of one source as they were given, then places. -/
def Origin.Before (a b : Origin) : Prop :=
  a.source < b.source ∨ a.source = b.source ∧
    (a.output < b.output ∨ a.output = b.output ∧ a.position < b.position)

section

variable {ρ κ : Type} [Ord κ]

/-- The records of one output, the `output`th one given. -/
def SourceRecords.origins (s : SourceRecords ρ) (output : Nat) : List (Origin × ρ) :=
  s.records.zipIdx.map fun r => (⟨s.source,output,r.2⟩,r.1)

/-- All records as they were given. -/
def origins (sources : List (SourceRecords ρ)) : List (Origin × ρ) :=
  sources.zipIdx.flatMap fun s => s.1.origins s.2

/-- All records of a key, each once, in the order of their origins. -/
def InOrder (key : ρ → κ) (sources : List (SourceRecords ρ)) (k : κ) (records : List ρ) : Prop :=
  ∃ tagged : List (Origin × ρ),
    tagged.Perm ((origins sources).filter fun t => compare (key t.2) k = .eq) ∧
    tagged.Pairwise (fun a b => a.1.Before b.1) ∧ tagged.map Prod.snd = records

/-- What regrouping makes of the records of some sources. -/
structure Regrouped (routing : Routing κ) (key : ρ → κ) (sources : List (SourceRecords ρ))
    (partitions : List (Partition κ ρ)) : Prop where
  ids : partitions.map Partition.id = List.range routing.partitions
  conserved : (partitions.flatMap fun p => p.groups.flatMap Prod.snd).Perm
    (sources.flatMap SourceRecords.records)
  /-- A key has one group. -/
  distinct : (partitions.flatMap fun p => p.groups.map Prod.fst).Nodup
  present : ∀ k,k ∈ partitions.flatMap (fun p => p.groups.map Prod.fst) ↔
    ∃ s ∈ sources,∃ r ∈ s.records,key r = k
  routed : ∀ p ∈ partitions,∀ g ∈ p.groups,routing.partitionOf g.1 = p.id
  nonempty : ∀ p ∈ partitions,∀ g ∈ p.groups,g.2 ≠ []
  ascending : ∀ p ∈ partitions,p.groups.Pairwise fun g h => compare g.1 h.1 = .lt
  ordered : ∀ p ∈ partitions,∀ g ∈ p.groups,InOrder key sources g.1 g.2

omit [Ord κ] in
theorem SourceRecords.map_snd_origins (s : SourceRecords ρ) (output : Nat) :
    (s.origins output).map Prod.snd = s.records := by
  simp [origins,Function.comp_def]

theorem SourceRecords.origins_pairwise (s : SourceRecords ρ) (output : Nat) :
    (s.origins output).Pairwise fun a b => a.1.Before b.1 := by
  rw [origins,List.pairwise_map,List.pairwise_iff_getElem]
  intro i j hi hj lt
  simp [Origin.Before,lt]

/-- The order that sources arrive in. -/
def SourceRecords.notAfter (a b : SourceRecords ρ) : Bool := a.source ≤ b.source

theorem SourceRecords.notAfter_trans (a b c : SourceRecords ρ) (ab : a.notAfter b)
    (bc : b.notAfter c) : a.notAfter c := by
  simp only [notAfter,decide_eq_true_eq] at *
  omega

theorem SourceRecords.notAfter_total (a b : SourceRecords ρ) :
    (a.notAfter b || b.notAfter a) = true := by
  simp only [notAfter,Bool.or_eq_true,decide_eq_true_eq]
  omega

/-- Sorting the sources by number leaves those of one number as they were given. -/
theorem arrival_origins (sources : List (SourceRecords ρ)) :
    ∃ tagged : List (Origin × ρ),tagged.Perm (origins sources) ∧
      tagged.Pairwise (fun a b => a.1.Before b.1) ∧ tagged.map Prod.snd = arrival sources := by
  let sorted := sources.zipIdx.mergeSort (List.zipIdxLE SourceRecords.notAfter)
  refine ⟨sorted.flatMap fun s => s.1.origins s.2,?_,?_,?_⟩
  · exact (List.mergeSort_perm _ _).flatMap_right _
  · have perm : sorted.Perm sources.zipIdx := List.mergeSort_perm _ _
    have distinct : sorted.Pairwise fun a b => a.2 ≠ b.2 := by
      have nodup : (sources.zipIdx.map Prod.snd).Nodup := by
        rw [List.zipIdx_map_snd]
        exact List.nodup_range'
      exact List.pairwise_map.mp ((perm.map Prod.snd).nodup_iff.mpr nodup)
    have order : sorted.Pairwise fun a b => List.zipIdxLE SourceRecords.notAfter a b := by
      apply List.pairwise_mergeSort
      · exact List.zipIdxLE_trans SourceRecords.notAfter_trans
      · exact List.zipIdxLE_total SourceRecords.notAfter_total
    rw [List.pairwise_flatMap]
    refine ⟨fun s _ => s.1.origins_pairwise s.2,(order.and distinct).imp ?_⟩
    intro a b apart x hx y hy
    obtain ⟨s,i⟩ := a
    obtain ⟨t,j⟩ := b
    obtain ⟨before,ne⟩ := apart
    obtain ⟨_,_,rfl⟩ := List.mem_map.mp hx
    obtain ⟨_,_,rfl⟩ := List.mem_map.mp hy
    simp only [List.zipIdxLE,SourceRecords.notAfter,decide_eq_true_eq] at before
    simp only [Origin.Before]
    split at before
    next st =>
      split at before
      next ts => simp only [decide_eq_true_eq] at before; omega
      next => omega
    next => simp at before
  · rw [List.map_flatMap]
    simp only [SourceRecords.map_snd_origins]
    rw [arrival,← List.mergeSort_zipIdx,List.flatMap_map]
    rfl

theorem arrival_perm (sources : List (SourceRecords ρ)) :
    (arrival sources).Perm (sources.flatMap SourceRecords.records) :=
  (List.mergeSort_perm _ _).flatMap_right _

theorem inOrder_withKey (key : ρ → κ) (sources : List (SourceRecords ρ)) (k : κ) :
    InOrder key sources k (withKey key k (arrival sources)) := by
  obtain ⟨tagged,perm,order,records⟩ := arrival_origins sources
  refine ⟨tagged.filter fun t => compare (key t.2) k = .eq,perm.filter _,order.filter _,?_⟩
  rw [← records,withKey,List.filter_map]
  rfl

/-- Sources of different numbers have one order only. -/
theorem arrival_congr {sources sources' : List (SourceRecords ρ)} (perm : sources'.Perm sources)
    (distinct : (sources.map SourceRecords.source).Nodup) : arrival sources' = arrival sources := by
  have sorted : ∀ l : List (SourceRecords ρ),(l.mergeSort SourceRecords.notAfter).Pairwise
      fun a b => a.notAfter b :=
    List.pairwise_mergeSort SourceRecords.notAfter_trans SourceRecords.notAfter_total
  have same : sources'.mergeSort SourceRecords.notAfter =
      sources.mergeSort SourceRecords.notAfter := by
    have perms : (sources'.mergeSort SourceRecords.notAfter).Perm
        (sources.mergeSort SourceRecords.notAfter) :=
      (List.mergeSort_perm _ _).trans (perm.trans (List.mergeSort_perm _ _).symm)
    refine perms.eq_of_pairwise ?_ (sorted _) (sorted _)
    intro a b ha hb ab ba
    have ha := perm.mem_iff.mp ((List.mergeSort_perm _ _).mem_iff.mp ha)
    have hb := (List.mergeSort_perm _ _).mem_iff.mp hb
    simp only [SourceRecords.notAfter,decide_eq_true_eq] at ab ba
    exact List.inj_on_of_nodup_map distinct ha hb (Nat.le_antisymm ab ba)
  exact congrArg (List.flatMap SourceRecords.records) same

/-- The records that a partition gets, in the order of their sources. -/
def share (routing : Routing κ) (key : ρ → κ) (sources : List (SourceRecords ρ)) (id : Nat) :
    List ρ :=
  (arrival sources).filter fun r => routing.partitionOf (key r) = id

theorem shuffle_eq (routing : Routing κ) (key : ρ → κ) (sources : List (SourceRecords ρ)) :
    shuffle routing key sources = (List.range routing.partitions).map fun id =>
      ⟨id,groupByKey key (share routing key sources id)⟩ := by
  simp [shuffle,share,List.filter_map,Function.comp_def]

/-- Dealing out a list by numbers below a bound keeps every element. -/
theorem flatMap_filter_perm {α : Type} {n : Nat} (f : α → Nat) (l : List α)
    (h : ∀ x ∈ l,f x < n) :
    ((List.range n).flatMap fun id => l.filter fun x => f x = id).Perm l := by
  induction l with
  | nil => simp
  | cons x l ih =>
    have rest := ih fun y hy => h y (by simp [hy])
    have one : (List.range n).flatMap (fun id => if f x = id then [x] else []) = [x] := by
      have nodup := List.nodup_range (n := n)
      obtain ⟨s,t,split⟩ := List.append_of_mem (List.mem_range.mpr (h x (by simp)))
      rw [split,List.nodup_append,List.nodup_cons] at nodup
      obtain ⟨_,⟨after,_⟩,apart⟩ := nodup
      have left : s.flatMap (fun id => if f x = id then [x] else []) = [] := by
        simp only [List.flatMap_eq_nil_iff]
        intro id hid
        exact if_neg fun eq => apart id hid (f x) (by simp) eq.symm
      have right : t.flatMap (fun id => if f x = id then [x] else []) = [] := by
        simp only [List.flatMap_eq_nil_iff]
        intro id hid
        exact if_neg fun eq : f x = id => after (eq ▸ hid)
      rw [split,List.flatMap_append,List.flatMap_cons,left,right,if_pos rfl]
      rfl
    have cut : ∀ id,(x::l).filter (fun y => f y = id) =
        (if f x = id then [x] else [])++l.filter fun y => f y = id := by
      intro id
      by_cases eq : f x = id <;> simp [eq]
    simp only [cut]
    refine (List.flatMap_append_perm _ _ _).symm.trans ?_
    rw [one]
    exact rest.cons x

section

variable {routing : Routing κ} {key : ρ → κ} {sources : List (SourceRecords ρ)}

theorem mem_shuffle {p : Partition κ ρ} : p ∈ shuffle routing key sources ↔
    p.id < routing.partitions ∧ p.groups = groupByKey key (share routing key sources p.id) := by
  rw [shuffle_eq,List.mem_map]
  constructor
  · intro h
    obtain ⟨id,hid,rfl⟩ := h
    exact ⟨List.mem_range.mp hid,rfl⟩
  · intro h
    obtain ⟨hid,groups⟩ := h
    exact ⟨p.id,List.mem_range.mpr hid,by rw [← groups]⟩

theorem shuffle_ids :
    (shuffle routing key sources).map Partition.id = List.range routing.partitions := by
  simp [shuffle_eq,Function.comp_def]

variable [Std.TransOrd κ] [Std.LawfulEqOrd κ]

omit [Std.LawfulEqOrd κ] in
theorem keys_ne {g h : κ × List ρ} (lt : compare g.1 h.1 = .lt) : g.1 ≠ h.1 := by
  intro eq
  rw [eq,Std.ReflOrd.compare_self] at lt
  cases lt

/-- Groups lie where their keys are routed to. -/
theorem mem_groups {p : Partition κ ρ} (hp : p ∈ shuffle routing key sources) {k : κ}
    {g : List ρ} : (k,g) ∈ p.groups ↔
      routing.partitionOf k = p.id ∧ g ≠ [] ∧ g = withKey key k (arrival sources) := by
  obtain ⟨_,groups⟩ := mem_shuffle.mp hp
  have within : withKey key k (share routing key sources p.id) =
      if routing.partitionOf k = p.id then withKey key k (arrival sources) else [] := by
    rw [withKey,share,List.filter_filter]
    split
    next here =>
      apply List.filter_congr
      intro r _
      by_cases eq : compare (key r) k = .eq
      · simp [Std.LawfulEqOrd.eq_of_compare eq,here]
      · simp [eq]
    next elsewhere =>
      rw [List.filter_eq_nil_iff]
      intro r _ both
      simp only [Bool.and_eq_true,decide_eq_true_eq] at both
      exact elsewhere (Std.LawfulEqOrd.eq_of_compare both.1 ▸ both.2)
  rw [groups,mem_groupByKey,within]
  split
  next here => simp [here]
  next elsewhere =>
    simp only [elsewhere,false_and,iff_false]
    intro both
    obtain ⟨ne,rfl⟩ := both
    exact ne rfl

/-- Keys are those of the records. -/
theorem mem_keys (inside : ∀ k,routing.partitionOf k < routing.partitions) {k : κ} :
    k ∈ (shuffle routing key sources).flatMap (fun p => p.groups.map Prod.fst) ↔
      withKey key k (arrival sources) ≠ [] := by
  rw [List.mem_flatMap]
  constructor
  · intro h
    obtain ⟨p,hp,hk⟩ := h
    obtain ⟨⟨_,g⟩,hg,rfl⟩ := List.mem_map.mp hk
    obtain ⟨_,ne,eq⟩ := (mem_groups hp).mp hg
    exact eq ▸ ne
  · intro ne
    let p : Partition κ ρ := ⟨routing.partitionOf k,
      groupByKey key (share routing key sources (routing.partitionOf k))⟩
    have hp : p ∈ shuffle routing key sources := mem_shuffle.mpr ⟨inside k,rfl⟩
    exact ⟨p,hp,List.mem_map.mpr ⟨_,(mem_groups hp).mpr ⟨rfl,ne,rfl⟩,rfl⟩⟩

omit [Std.TransOrd κ] in
/-- A key has records exactly if some source has one. -/
theorem withKey_arrival_ne_nil {k : κ} : withKey key k (arrival sources) ≠ [] ↔
    ∃ s ∈ sources,∃ r ∈ s.records,key r = k := by
  have mem : ∀ r,r ∈ withKey key k (arrival sources) ↔
      (∃ s ∈ sources,r ∈ s.records) ∧ key r = k := by
    intro r
    rw [mem_withKey,(arrival_perm sources).mem_iff,List.mem_flatMap,
      Std.LawfulEqOrd.compare_eq_iff_eq]
  rw [← List.isEmpty_eq_false_iff,List.isEmpty_eq_false_iff_exists_mem]
  simp only [mem]
  constructor
  · intro h
    obtain ⟨r,⟨s,hs,hr⟩,hk⟩ := h
    exact ⟨s,hs,r,hr,hk⟩
  · intro h
    obtain ⟨s,hs,r,hr,hk⟩ := h
    exact ⟨r,⟨s,hs,hr⟩,hk⟩

omit [Std.TransOrd κ] [Std.LawfulEqOrd κ] in
/-- No record is lost or made. -/
theorem shuffle_conserved (inside : ∀ k,routing.partitionOf k < routing.partitions) :
    ((shuffle routing key sources).flatMap fun p => p.groups.flatMap Prod.snd).Perm
      (sources.flatMap SourceRecords.records) := by
  have parts : ((List.range routing.partitions).flatMap (share routing key sources)).Perm
      (arrival sources) := flatMap_filter_perm (fun r => routing.partitionOf (key r)) _
    fun r _ => inside (key r)
  rw [shuffle_eq,List.flatMap_map]
  refine List.Perm.trans ?_ (parts.trans (arrival_perm sources))
  apply List.Perm.flatMap (List.Perm.refl _)
  intro id _
  simp only [groupByKey_flatMap]
  exact sortBy_perm _

/-- Groups of one partition have different keys, and those of different partitions are routed apart. -/
theorem shuffle_keys_nodup :
    ((shuffle routing key sources).flatMap fun p => p.groups.map Prod.fst).Nodup := by
  rw [List.nodup_flatMap]
  constructor
  · intro p hp
    rw [(mem_shuffle.mp hp).2]
    exact List.pairwise_map.mpr ((groupByKey_pairwise _).imp keys_ne)
  · have ids : ((shuffle routing key sources).map Partition.id).Nodup := by
      rw [shuffle_ids]
      exact List.nodup_range
    have apart := List.pairwise_map.mp ids
    refine apart.imp_of_mem ?_
    intro p q hp hq ne k kp kq
    obtain ⟨⟨_,g⟩,hg,rfl⟩ := List.mem_map.mp kp
    obtain ⟨⟨_,h⟩,hh,rfl⟩ := List.mem_map.mp kq
    exact ne (((mem_groups hp).mp hg).1.symm.trans ((mem_groups hq).mp hh).1)

theorem shuffle_regrouped (inside : ∀ k,routing.partitionOf k < routing.partitions) :
    Regrouped routing key sources (shuffle routing key sources) where
  ids := shuffle_ids
  conserved := shuffle_conserved inside
  distinct := shuffle_keys_nodup
  present k := by
    rw [← withKey_arrival_ne_nil]
    exact mem_keys inside
  routed p hp g hg := ((mem_groups hp).mp hg).1
  nonempty p hp g hg := ((mem_groups hp).mp hg).2.1
  ascending p hp := by
    rw [(mem_shuffle.mp hp).2]
    exact groupByKey_pairwise _
  ordered p hp g hg := by
    rw [((mem_groups hp).mp hg).2.2]
    exact inOrder_withKey key sources g.1

end

/-- Merging makes one call for each group. -/
theorem shuffle_contract {β : Type} [Std.TransOrd κ] [Std.LawfulEqOrd κ] (routing : Routing κ)
    (key : ρ → κ) (sources : List (SourceRecords ρ)) (merge : κ → List ρ → β)
    (inside : ∀ k,routing.partitionOf k < routing.partitions) :
    Regrouped routing key sources (shuffle routing key sources) ∧
      (∀ sources' : List (SourceRecords ρ),sources'.Perm sources →
        (sources.map SourceRecords.source).Nodup →
        shuffle routing key sources' = shuffle routing key sources) ∧
      shuffleMerge routing key sources merge =
        (shuffle routing key sources).map fun p => p.groups.map fun g => merge g.1 g.2 := by
  refine ⟨shuffle_regrouped inside,?_,rfl⟩
  intro sources' perm distinct
  simp only [shuffle_eq,share,arrival_congr perm distinct]

/-- Two sources, one of them in two outputs, dealt out by parity. -/
theorem shuffle_contract_parity :
    let parity : Routing Nat := ⟨2,fun k => k%2⟩
    let sources : List (SourceRecords (Nat × Char)) :=
      [⟨1,[(3,'a'),(4,'b')]⟩,⟨0,[(4,'c'),(3,'d')]⟩,⟨1,[(3,'e')]⟩]
    (∀ k,parity.partitionOf k < parity.partitions) ∧
      Regrouped parity Prod.fst sources (shuffle parity Prod.fst sources) ∧
      shuffleMerge parity Prod.fst sources (fun k rs => (k,String.ofList (rs.map Prod.snd))) =
        [[(4,"cb")],[(3,"dae")]] := by
  intro parity sources
  have inside : ∀ k,parity.partitionOf k < parity.partitions := fun k => Nat.mod_lt k (by decide)
  have contract := shuffle_contract parity Prod.fst sources
    (fun k rs => (k,String.ofList (rs.map Prod.snd))) inside
  exact ⟨inside,contract.1,by cbv⟩

end

end GlobeBins

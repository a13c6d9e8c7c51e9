import GlobeBins.Proofs.Job.Passes

namespace GlobeBins

/-- What one region gets: bins, each with its output. -/
structure Block where
  region : Int32
  bins : List (RegionBin Binary32 × List Binary32)

namespace Job

section

variable (job : Job)

def blockCalls (b : Block) : List ProductCall :=
  .start (job.metadata b.region)::((b.bins.map fun x => .bin x.1 x.2)++[.finish])

/-- By the remainder that is a region's partition, then by index. -/
def RegionBefore (a b : Int32) : Prop :=
  let partition (r : Int32) : Nat := r.toInt.toNat%job.settings.regionPartitions
  partition a < partition b ∨ partition a = partition b ∧ a < b

variable {job} in
theorem RegionBefore.asymm {a b : Int32} (h : job.RegionBefore a b) : ¬job.RegionBefore b a := by
  intro back
  rcases h with lt | ⟨eq,lt⟩
  · rcases back with gt | ⟨eq,_⟩
    · exact Nat.lt_asymm lt gt
    · exact Nat.ne_of_gt lt eq
  · rcases back with gt | ⟨_,gt⟩
    · exact Nat.ne_of_gt gt eq
    · exact Int32.lt_asymm lt gt

/-- Regions with bins in the order of their partitions, then those without bins by index. -/
structure Protocol (full empty : List Block) : Prop where
  /-- Every region has one block. -/
  once : ((full++empty).map Block.region).Perm
    ((List.range job.regions.length).map Int32.ofNat)
  full_bins : ∀ b ∈ full,b.bins ≠ []
  empty_bins : ∀ b ∈ empty,b.bins = []
  full_order : full.Pairwise fun a b => job.RegionBefore a.region b.region
  empty_order : empty.Pairwise fun a b => a.region < b.region
  own : ∀ b ∈ full,∀ x ∈ b.bins,x.1.key = ⟨b.region,x.1.bin.index⟩
  ascending : ∀ b ∈ full,b.bins.Pairwise fun x y => x.1.bin.index < y.1.bin.index

/-- What is written for a bin. -/
def output (b : RegionBin Binary32) : List Binary32 :=
  Ensemble.outputs job.scheme.ensemble.statistics b.bin.features

def Wide (b : RegionBin Binary32) : Prop :=
  b.bin.features.length = job.scheme.ensemble.temporalCount

/-- The block of copies that stand together. -/
def blockOf (g : List (RegionBin Binary32)) : Block :=
  ⟨match g with | [] => 0 | b::_ => b.key.region,g.map fun b => (b,job.output b)⟩

def fullBlocks (partitions : List (List (RegionBin Binary32))) : List Block :=
  (partitions.flatMap RegionBin.groups).map job.blockOf

def emptyBlocks (partitions : List (List (RegionBin Binary32))) : List Block :=
  (job.emptyRegions partitions.flatten).map fun r => ⟨r,[]⟩

end

variable {job : Job}

theorem output_eq {b : RegionBin Binary32} (wide : job.Wide b) {out : List Binary32}
    (room : out.length = job.scheme.ensemble.outputCount) :
    job.scheme.ensemble.writeOutput b.bin out = job.output b :=
  Ensemble.writeOutput_eq _ wide room

theorem output_length {b : RegionBin Binary32} (wide : job.Wide b) :
    (job.output b).length = job.scheme.ensemble.outputCount :=
  Ensemble.outputs_length wide

theorem copies_wide (sources : List (SourceRecords (SpatialBin Binary32))) :
    ∀ x ∈ job.copies (job.temporalPass sources),job.Wide x := by
  intro x hx
  obtain ⟨b,hb,_,_,_,_,rfl⟩ := mem_copies.mp hx
  obtain ⟨cells,_,_,eq⟩ := job.temporalPass_flatten sources
  rw [eq] at hb
  obtain ⟨i,_,rfl⟩ := List.mem_map.mp hb
  exact Ensemble.merge_length _ i _

/-- The vector that is written over keeps its length, so it never shows. -/
theorem binCalls_eq {bs : List (RegionBin Binary32)} (wide : ∀ b ∈ bs,job.Wide b)
    {out : List Binary32} (room : out.length = job.scheme.ensemble.outputCount) :
    ∃ last,last.length = job.scheme.ensemble.outputCount ∧
      job.binCalls out bs = ((bs.map fun b => .bin b (job.output b))++[.finish],last) := by
  induction bs generalizing out with
  | nil => exact ⟨out,room,rfl⟩
  | cons b bs ih =>
    have own := wide b (by simp)
    obtain ⟨last,length,calls⟩ := ih (fun c hc => wide c (by simp [hc])) (output_length own)
    refine ⟨last,length,?_⟩
    simp only [binCalls,output_eq own room,calls]
    rfl

theorem groupCalls_eq {gs : List (List (RegionBin Binary32))} (ne : [] ∉ gs)
    (wide : ∀ g ∈ gs,∀ b ∈ g,job.Wide b) {out : List Binary32}
    (room : out.length = job.scheme.ensemble.outputCount) :
    job.groupCalls out gs = (gs.map job.blockOf).flatMap job.blockCalls := by
  induction gs generalizing out with
  | nil => rfl
  | cons g gs ih =>
    cases g with
    | nil => simp at ne
    | cons b bs =>
      obtain ⟨last,length,calls⟩ := binCalls_eq (wide (b::bs) (by simp)) room
      have rest := ih (by simpa using ne) (fun g hg => wide g (by simp [hg])) length
      simp only [groupCalls,calls,rest,List.map_cons,List.flatMap_cons]
      simp [blockOf,blockCalls]

/-- The groups of a partition, each of one region. -/
theorem groups_eq (p : List (RegionBin Binary32)) :
    RegionBin.groups p = runs (fun b => b.key.region) p := rfl

/-- Copies of different keys in ascending order. -/
def Ascending (p : List (RegionBin Binary32)) : Prop := p.Pairwise fun a b => compare a.key b.key = .lt

theorem sortBy_ascending {l : List (RegionBin Binary32)}
    (distinct : l.Pairwise fun a b => a.key ≠ b.key) : Ascending (sortBy RegionBin.key l) := by
  have apart : (sortBy RegionBin.key l).Pairwise fun a b => a.key ≠ b.key :=
    (sortBy_perm l).symm.pairwise distinct fun h => h.symm
  have sorted : SortedBy RegionBin.key (sortBy RegionBin.key l) := sortBy_sorted l
  refine (sorted.and apart).imp ?_
  intro a b h
  obtain ⟨le,ne⟩ := h
  exact lt_of_isLE le fun eq => ne (Std.LawfulEqOrd.eq_of_compare eq)

theorem Ascending.sortedBy {p : List (RegionBin Binary32)} (h : Ascending p) :
    SortedBy (fun b : RegionBin Binary32 => b.key.region) p := by
  refine h.imp ?_
  intro a b lt
  show (compare a.key.region b.key.region).isLE
  rcases RegionKey.lt_iff.mp lt with lt | ⟨eq,_⟩
  · rw [Std.compare_eq_lt.mpr lt]
    rfl
  · rw [eq,Std.ReflOrd.compare_self]
    rfl

section

variable {p g : List (RegionBin Binary32)} (hg : g ∈ RegionBin.groups p)

include hg

theorem group_ne_nil : g ≠ [] := by
  intro eq
  subst eq
  exact nil_notMem_runs p hg

theorem group_subset {b : RegionBin Binary32} (hb : b ∈ g) : b ∈ p := by
  rw [← runs_flatten (fun b => b.key.region) p]
  exact List.mem_flatten.mpr ⟨g,hg,hb⟩

/-- A block is of the region of each of its copies. -/
theorem blockOf_region {b : RegionBin Binary32} (hb : b ∈ g) :
    (job.blockOf g).region = b.key.region := by
  cases g with
  | nil => simp at hb
  | cons a bs => exact Std.LawfulEqOrd.eq_of_compare (runs_same_key hg (by simp) hb)

theorem group_ascending (h : Ascending p) : g.Pairwise fun a b => a.key.bin < b.key.bin := by
  have whole : (runs (fun b => b.key.region) p).flatten.Pairwise
      fun a b => compare a.key b.key = .lt := by
    rw [runs_flatten]
    exact h
  refine ((List.pairwise_flatten.mp whole).1 g hg).imp_of_mem ?_
  intro a b ha hb lt
  have same : a.key.region = b.key.region :=
    Std.LawfulEqOrd.eq_of_compare (runs_same_key hg ha hb)
  rcases RegionKey.lt_iff.mp lt with lt | ⟨_,lt⟩
  · rw [same] at lt
    exact absurd lt Int32.lt_irrefl
  · exact lt

end

section

variable {temporal : List (List (TemporalBin Binary32))}
  {partitions : List (List (RegionBin Binary32))}
  (few : job.regions.length < 2^31) (positive : 0 < job.settings.regionPartitions)
  (small : job.settings.regionPartitions < 2^31)
  (distinct : (temporal.flatten.map TemporalBin.index).Nodup)
  (h : job.regionPass temporal = .ok partitions)

include few distinct in
theorem part_ascending (id : Nat) :
    Ascending (sortBy RegionBin.key (job.regionShare temporal id)) :=
  sortBy_ascending ((copies_distinct few distinct).filter _)

include few positive small in
/-- A partition of regions is the remainder of their indices. -/
theorem part_region {id : Nat} {x : RegionBin Binary32}
    (hx : x ∈ sortBy RegionBin.key (job.regionShare temporal id)) :
    x.key.region.toInt.toNat%job.settings.regionPartitions = id := by
  have hx := (sortBy_perm _).mem_iff.mp hx
  rw [regionShare,List.mem_filter,decide_eq_true_eq] at hx
  obtain ⟨n,low,region⟩ := copies_region hx.1
  have key : x.key = ⟨Int32.ofNat n,x.key.bin⟩ := by rw [← region]
  rw [key,regionRouting_partitionOf positive small (by omega)] at hx
  rw [region,toNat_ofNat (by omega)]
  exact hx.2

include few positive small distinct h in
theorem fullBlocks_order :
    (job.fullBlocks partitions).Pairwise fun a b => job.RegionBefore a.region b.region := by
  rw [fullBlocks,regionPass_eq h,List.pairwise_map,List.pairwise_flatMap,List.pairwise_map]
  constructor
  · intro p hp
    obtain ⟨id,_,rfl⟩ := List.mem_map.mp hp
    refine (runs_pairwise (part_ascending few distinct id).sortedBy).imp_of_mem ?_
    intro g k hg hk below
    obtain ⟨a,ha⟩ := List.exists_mem_of_ne_nil _ (group_ne_nil hg)
    obtain ⟨b,hb⟩ := List.exists_mem_of_ne_nil _ (group_ne_nil hk)
    have first := part_region few positive small (group_subset hg ha)
    have second := part_region few positive small (group_subset hk hb)
    rw [blockOf_region hg ha,blockOf_region hk hb]
    exact .inr ⟨first.trans second.symm,Std.compare_eq_lt.mp (below a ha b hb)⟩
  · refine List.pairwise_lt_range.imp ?_
    intro id id' lt g hg k hk
    obtain ⟨a,ha⟩ := List.exists_mem_of_ne_nil _ (group_ne_nil hg)
    obtain ⟨b,hb⟩ := List.exists_mem_of_ne_nil _ (group_ne_nil hk)
    have first := part_region few positive small (group_subset hg ha)
    have second := part_region few positive small (group_subset hk hb)
    rw [blockOf_region hg ha,blockOf_region hk hb]
    refine .inl ?_
    simp only [first,second,lt]

theorem mem_fullBlocks_region {r : Int32} : r ∈ (job.fullBlocks partitions).map Block.region ↔
    ∃ x ∈ partitions.flatten,x.key.region = r := by
  simp only [fullBlocks,List.mem_map,List.mem_flatMap,List.mem_flatten]
  constructor
  · intro h
    obtain ⟨_,⟨g,⟨p,hp,hg⟩,rfl⟩,rfl⟩ := h
    obtain ⟨x,hx⟩ := List.exists_mem_of_ne_nil _ (group_ne_nil hg)
    exact ⟨x,⟨p,hp,group_subset hg hx⟩,(blockOf_region hg hx).symm⟩
  · intro h
    obtain ⟨x,⟨p,hp,hx⟩,rfl⟩ := h
    rw [← runs_flatten (fun b => b.key.region) p] at hx
    obtain ⟨g,hg,hx⟩ := List.mem_flatten.mp hx
    exact ⟨_,⟨g,⟨p,hp,hg⟩,rfl⟩,blockOf_region hg hx⟩

/-- Groups leave nothing out. -/
theorem groups_flatten (partitions : List (List (RegionBin Binary32))) :
    (partitions.flatMap RegionBin.groups).flatten = partitions.flatten := by
  induction partitions with
  | nil => rfl
  | cons p ps ih =>
    rw [List.flatMap_cons,List.flatten_append,ih,groups_eq,runs_flatten,List.flatten_cons]

/-- The vector that the calls begin with does not show in any of them. -/
theorem groupCalls_blocks (wide : ∀ b ∈ partitions.flatten,job.Wide b) {start : List Binary32}
    (room : start.length = job.scheme.ensemble.outputCount) :
    job.groupCalls start (partitions.flatMap RegionBin.groups) =
      (job.fullBlocks partitions).flatMap job.blockCalls := by
  have nonempty : [] ∉ partitions.flatMap RegionBin.groups := by
    intro hg
    obtain ⟨_,_,hg⟩ := List.mem_flatMap.mp hg
    exact group_ne_nil hg rfl
  refine groupCalls_eq nonempty ?_ room
  intro g hg b hb
  apply wide b
  rw [← groups_flatten]
  exact List.mem_flatten.mpr ⟨g,hg,hb⟩

theorem fullBlocks_bins : (job.fullBlocks partitions).flatMap Block.bins =
    partitions.flatten.map fun x => (x,job.output x) := by
  rw [← groups_flatten,fullBlocks,List.flatMap_map,List.map_flatten,List.flatMap_def]
  rfl

theorem mem_emptyRegions {bins : List (RegionBin Binary32)} {r : Int32} :
    r ∈ job.emptyRegions bins ↔
      r ∈ (List.range job.regions.length).map Int32.ofNat ∧ ¬∃ x ∈ bins,x.key.region = r := by
  simp [emptyRegions]

include few in
theorem emptyRegions_pairwise (bins : List (RegionBin Binary32)) :
    (job.emptyRegions bins).Pairwise fun a b => a < b := by
  refine List.Pairwise.filter _ ?_
  rw [List.pairwise_map]
  refine List.pairwise_lt_range.imp_of_mem ?_
  intro n m hn hm lt
  rw [List.mem_range] at hn hm
  exact ofNat_lt lt (by omega)

include few in
theorem region_indices_nodup : ((List.range job.regions.length).map Int32.ofNat).Nodup := by
  have none : job.emptyRegions [] = (List.range job.regions.length).map Int32.ofNat := by
    simp [emptyRegions]
  rw [← none]
  refine (emptyRegions_pairwise few []).imp ?_
  intro a b lt eq
  subst eq
  exact Int32.lt_irrefl lt

include few positive small distinct h in
/-- Full and empty blocks have all regions between them, and none in common. -/
theorem blocks_once :
    ((job.fullBlocks partitions++job.emptyBlocks partitions).map Block.region).Perm
      ((List.range job.regions.length).map Int32.ofNat) := by
  have empties : (job.emptyBlocks partitions).map Block.region =
      job.emptyRegions partitions.flatten := by
    rw [emptyBlocks,List.map_map]
    exact List.map_id _
  rw [List.map_append,empties,List.perm_ext_iff_of_nodup]
  · intro r
    rw [List.mem_append,mem_fullBlocks_region,mem_emptyRegions]
    constructor
    · intro h
      obtain ⟨x,hx,rfl⟩ | ⟨hr,_⟩ := h
      · have hx := (regionPass_perm few h).mem_iff.mp hx
        obtain ⟨n,low,region⟩ := copies_region hx
        rw [region]
        exact List.mem_map.mpr ⟨n,List.mem_range.mpr low,rfl⟩
      · exact hr
    · intro hr
      by_cases some : ∃ x ∈ partitions.flatten,x.key.region = r
      · exact .inl some
      · exact .inr ⟨hr,some⟩
  · rw [List.nodup_append]
    refine ⟨?_,?_,?_⟩
    · rw [List.Nodup,List.pairwise_map]
      refine (fullBlocks_order few positive small distinct h).imp ?_
      intro a b h eq
      obtain lt | ⟨_,lt⟩ := h
      · simp only [eq,Nat.lt_irrefl] at lt
      · rw [eq] at lt
        exact Int32.lt_irrefl lt
    · refine (emptyRegions_pairwise few _).imp ?_
      intro a b lt eq
      subst eq
      exact Int32.lt_irrefl lt
    · intro r full _ empty eq
      subst eq
      exact (mem_emptyRegions.mp empty).2 (mem_fullBlocks_region.mp full)
  · exact region_indices_nodup few

include few h in
theorem groups_inCopies : ∀ g ∈ partitions.flatMap RegionBin.groups,∀ b ∈ g,
    b ∈ job.copies temporal := by
  intro g hg b hb
  obtain ⟨p,hp,hg⟩ := List.mem_flatMap.mp hg
  exact (regionPass_perm few h).mem_iff.mp
    (List.mem_flatten.mpr ⟨p,hp,group_subset hg hb⟩)

include few positive small distinct h in
theorem blocks_protocol :
    job.Protocol (job.fullBlocks partitions) (job.emptyBlocks partitions) := by
  have inCopies := groups_inCopies few h
  constructor
  case once => exact blocks_once few positive small distinct h
  case full_bins =>
    intro b hb
    obtain ⟨g,hg,rfl⟩ := List.mem_map.mp hb
    obtain ⟨_,_,hg⟩ := List.mem_flatMap.mp hg
    simpa [blockOf] using group_ne_nil hg
  case empty_bins =>
    intro b hb
    obtain ⟨_,_,rfl⟩ := List.mem_map.mp hb
    rfl
  case full_order => exact fullBlocks_order few positive small distinct h
  case empty_order =>
    rw [emptyBlocks,List.pairwise_map]
    exact emptyRegions_pairwise few _
  case own =>
    intro b hb x hx
    obtain ⟨g,hg,rfl⟩ := List.mem_map.mp hb
    obtain ⟨c,hc,rfl⟩ := List.mem_map.mp hx
    have bin := copies_keys (inCopies g hg c hc)
    obtain ⟨_,_,hg⟩ := List.mem_flatMap.mp hg
    rw [blockOf_region hg hc,← bin]
  case ascending =>
    intro b hb
    obtain ⟨g,hg,rfl⟩ := List.mem_map.mp hb
    have inside := inCopies g hg
    obtain ⟨p,hp,hg⟩ := List.mem_flatMap.mp hg
    rw [regionPass_eq h] at hp
    obtain ⟨id,_,rfl⟩ := List.mem_map.mp hp
    simp only [blockOf,List.pairwise_map]
    refine (group_ascending hg (part_ascending few distinct id)).imp_of_mem ?_
    intro c d hc hd lt
    rw [← copies_keys (inside c hc),← copies_keys (inside d hd)]
    exact lt

include few h in
theorem productCalls_eq_blocks (wide : ∀ x ∈ job.copies temporal,job.Wide x) :
    job.productCalls partitions =
      (job.fullBlocks partitions++job.emptyBlocks partitions).flatMap job.blockCalls := by
  have full := groupCalls_blocks (fun b hb => wide b ((regionPass_perm few h).mem_iff.mp hb))
    (Ensemble.fillVector_length _)
  have empty : (job.emptyBlocks partitions).flatMap job.blockCalls =
      (job.emptyRegions partitions.flatten).flatMap fun r =>
        [.start (job.metadata r),.finish] := by
    rw [emptyBlocks,List.flatMap_map]
    rfl
  rw [productCalls,full,List.flatMap_append,empty]

include few positive small distinct h in
/-- The calls of a job are its blocks, and in them every copy has its place. -/
theorem productCalls_blocks (wide : ∀ x ∈ job.copies temporal,job.Wide x) :
    ∃ full empty : List Block,job.Protocol full empty ∧
      job.productCalls partitions = (full++empty).flatMap job.blockCalls ∧
      (full.flatMap Block.bins).Perm
        ((job.copies temporal).map fun x => (x,job.output x)) := by
  refine ⟨job.fullBlocks partitions,job.emptyBlocks partitions,?_,?_,?_⟩
  · exact blocks_protocol few positive small distinct h
  · exact productCalls_eq_blocks few h wide
  · rw [fullBlocks_bins]
    exact (regionPass_perm few h).map _

end

section

variable {full empty full' empty' : List Block} (few : job.regions.length < 2^31)
  (h : job.Protocol full empty)

include few h

theorem Protocol.regions_nodup : ((full++empty).map Block.region).Nodup :=
  h.once.nodup_iff.mpr (region_indices_nodup few)

/-- A block has all bins of its region. -/
theorem Protocol.mem_bins {b : Block} (hb : b ∈ full++empty)
    {x : RegionBin Binary32 × List Binary32} :
    x ∈ b.bins ↔ x ∈ full.flatMap Block.bins ∧ x.1.key.region = b.region := by
  constructor
  · intro hx
    rcases List.mem_append.mp hb with hb | hb
    · exact ⟨List.mem_flatMap.mpr ⟨b,hb,hx⟩,by rw [h.own b hb x hx]⟩
    · rw [h.empty_bins b hb] at hx
      cases hx
  · intro hx
    obtain ⟨hx,own⟩ := hx
    obtain ⟨c,hc,hx⟩ := List.mem_flatMap.mp hx
    rw [h.own c hc x hx] at own
    have same := List.inj_on_of_nodup_map (h.regions_nodup few) (List.mem_append_left _ hc) hb own
    rw [← same]
    exact hx

variable (h' : job.Protocol full' empty')
  (same : (full.flatMap Block.bins).Perm (full'.flatMap Block.bins))

include h' same

theorem Protocol.full_subset : full ⊆ full' := by
  intro b hb
  obtain ⟨x,hx⟩ := List.exists_mem_of_ne_nil _ (h.full_bins b hb)
  obtain ⟨b',hb',hx'⟩ := List.mem_flatMap.mp
    (same.mem_iff.mp (List.mem_flatMap.mpr ⟨b,hb,hx⟩))
  have region : b.region = b'.region := by
    have own := h.own b hb x hx
    rw [h'.own b' hb' x hx'] at own
    exact (congrArg RegionKey.region own).symm
  have bins : b.bins = b'.bins := by
    refine eq_of_ascending Int64.lt_asymm (h.ascending b hb) (h'.ascending b' hb') ?_
    intro y
    rw [h.mem_bins few (List.mem_append_left _ hb),h'.mem_bins few (List.mem_append_left _ hb'),
      same.mem_iff,region]
  have equal : b = b' := by
    cases b
    cases b'
    cases region
    cases bins
    rfl
  rw [equal]
  exact hb'

/-- Blocks in the order of the protocol are known from the bins that they hold. -/
theorem Protocol.unique : full = full' ∧ empty = empty' := by
  have full_eq : full = full' := by
    refine eq_of_ascending RegionBefore.asymm h.full_order h'.full_order fun b => ?_
    exact ⟨fun hb => h.full_subset few h' same hb,fun hb => h'.full_subset few h same.symm hb⟩
  subst full_eq
  have regions : (empty.map Block.region).Perm (empty'.map Block.region) := by
    have all := h.once.trans h'.once.symm
    rw [List.map_append,List.map_append] at all
    exact (List.perm_append_left_iff _).mp all
  have ascending {bs : List Block} (order : bs.Pairwise fun a b => a.region < b.region) :
      (bs.map Block.region).Pairwise fun r s => r < s := List.pairwise_map.mpr order
  have equal : empty.map Block.region = empty'.map Block.region :=
    eq_of_ascending Int32.lt_asymm (ascending h.empty_order) (ascending h'.empty_order)
      fun r => regions.mem_iff
  have bare {bs : List Block} (none : ∀ b ∈ bs,b.bins = []) :
      bs = (bs.map Block.region).map fun r => ⟨r,[]⟩ := by
    have each : ∀ b ∈ bs,Block.mk b.region [] = b := fun b hb => by rw [← none b hb]
    rw [List.map_map]
    exact ((List.map_congr_left each).trans (List.map_id bs)).symm
  refine ⟨rfl,?_⟩
  rw [bare h.empty_bins,bare h'.empty_bins,equal]

end

end Job

end GlobeBins

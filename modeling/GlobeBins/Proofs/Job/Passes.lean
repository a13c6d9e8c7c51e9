import GlobeBins.Job
import GlobeBins.Proofs.Codec.RoundTrip
import GlobeBins.Proofs.Ensemble.Widths
import GlobeBins.Proofs.Shuffle.Routing

namespace GlobeBins

namespace Region

variable {κ : Type} [Coordinate κ] {α : Type} (g : Grid)

/-- Whether a region takes the bins of a cell. -/
def takes (r : Region κ) (i : Int64) : Bool :=
  let (lat,lon) : κ × κ := g.center i
  r.contains lat lon

variable {g} {rs : List (Region κ)} {b : TemporalBin α}

theorem mem_fanOut {x : RegionBin α} : x ∈ fanOut g rs b ↔
    ∃ n r,rs[n]? = some r ∧ r.takes g b.index = true ∧ RegionBin.of (Int32.ofNat n) b = x := by
  simp only [fanOut,List.mem_filterMap]
  constructor
  · intro h
    obtain ⟨⟨r,n⟩,mem,some⟩ := h
    have at_n := List.mem_zipIdx_iff_getElem?.mp mem
    split at some
    next within => exact ⟨n,r,at_n,within,by simpa using some⟩
    next => cases some
  · intro h
    obtain ⟨n,r,at_n,within,rfl⟩ := h
    exact ⟨(r,n),List.mem_zipIdx_iff_getElem?.mpr at_n,if_pos within⟩

/-- The numbers of the regions that take the bins of a cell. -/
def takers (g : Grid) (rs : List (Region κ)) (i : Int64) : List Nat :=
  (List.range rs.length).filter fun n => rs[n]?.any fun r => r.takes g i

theorem mem_takers {i : Int64} {n : Nat} :
    n ∈ takers g rs i ↔ ∃ r,rs[n]? = some r ∧ r.takes g i = true := by
  rw [takers,List.mem_filter,List.mem_range,Option.any_eq_true]
  constructor
  · exact fun h => h.2
  · intro h
    obtain ⟨r,at_n,taken⟩ := h
    exact ⟨(List.getElem?_eq_some_iff.mp at_n).1,r,at_n,taken⟩

theorem fanOut_eq_takers :
    fanOut g rs b = (takers g rs b.index).map fun n => .of (Int32.ofNat n) b := by
  induction rs using List.reverseRecOn with
  | nil => rfl
  | append_singleton rs r ih =>
    have before : (List.range rs.length).filter
        (fun n => (rs++[r])[n]?.any fun r => r.takes g b.index) = takers g rs b.index := by
      refine List.filter_congr fun n mem => ?_
      rw [List.getElem?_append_left (List.mem_range.mp mem)]
    have last : (rs++[r])[rs.length]? = some r := by simp
    have copy : fanOut g (rs++[r]) b =
        fanOut g rs b++if r.takes g b.index then [.of (Int32.ofNat rs.length) b] else [] := by
      simp only [fanOut,takes,List.zipIdx_append,List.filterMap_append]
      by_cases within : r.contains (g.center b.index).1 (g.center b.index).2 = true
      · simp [within]
      · simp [within]
    rw [copy,ih]
    nth_rewrite 2 [takers]
    rw [List.length_append,List.length_singleton,List.range_succ,List.filter_append,
      before,List.map_append,List.filter_singleton,last,Option.any_some]
    cases r.takes g b.index with
    | false => rfl
    | true => rfl

/-- Copies of one bin are told apart by their regions. -/
theorem fanOut_pairwise (few : rs.length < 2^31) :
    (fanOut g rs b).Pairwise fun x y => x.key.region < y.key.region := by
  simp only [fanOut]
  rw [List.pairwise_filterMap,List.pairwise_iff_getElem]
  intro i j hi hj lt x hx y hy
  simp only [List.length_zipIdx] at hi hj
  simp only [List.getElem_zipIdx,Nat.zero_add,Option.ite_none_right_eq_some,
    Option.some.injEq] at hx hy
  obtain ⟨_,rfl⟩ := hx
  obtain ⟨_,rfl⟩ := hy
  exact ofNat_lt lt (by omega)

end Region

namespace Job

variable (job : Job)

/-- The first pass merges every cell once, from all of its records. -/
theorem temporalPass_flatten (sources : List (SourceRecords (SpatialBin Binary32))) :
    ∃ cells : List Int64,cells.Nodup ∧
      (∀ i,i ∈ cells ↔ withKey SpatialBin.index i (arrival sources) ≠ []) ∧
      (job.temporalPass sources).flatten = cells.map fun i =>
        job.scheme.ensemble.merge i (withKey SpatialBin.index i (arrival sources)) :=
  shuffleMerge_flatten _ (RowRouting.routing_inside _ (RowRouting.ofLatitudes_partitions _ _ _ _))

theorem temporalPass_distinct (sources : List (SourceRecords (SpatialBin Binary32))) :
    ((job.temporalPass sources).flatten.map TemporalBin.index).Nodup := by
  obtain ⟨cells,distinct,_,eq⟩ := job.temporalPass_flatten sources
  have indices : (job.temporalPass sources).flatten.map TemporalBin.index = cells := by
    rw [eq,List.map_map]
    refine (List.map_congr_left fun i _ => ?_).trans (List.map_id _)
    exact Ensemble.merge_index _ i _
  rw [indices]
  exact distinct

/-- The copies that the regions get. -/
def copies (temporal : List (List (TemporalBin Binary32))) : List (RegionBin Binary32) :=
  temporal.flatten.flatMap (Region.fanOut job.scheme.grid job.regions)

/-- The copies that one partition of regions gets. -/
def regionShare (temporal : List (List (TemporalBin Binary32))) (id : Nat) :
    List (RegionBin Binary32) :=
  (job.copies temporal).filter fun x =>
    (regionRouting job.settings.regionPartitions).partitionOf x.key = id

variable {job} {temporal : List (List (TemporalBin Binary32))}

theorem mem_copies {x : RegionBin Binary32} : x ∈ job.copies temporal ↔
    ∃ b ∈ temporal.flatten,∃ n r,job.regions[n]? = some r ∧
      r.takes job.scheme.grid b.index = true ∧ RegionBin.of (Int32.ofNat n) b = x := by
  simp only [copies,List.mem_flatMap,Region.mem_fanOut]

theorem copies_keys {x : RegionBin Binary32} (h : x ∈ job.copies temporal) :
    x.key.bin = x.bin.index := by
  obtain ⟨_,_,_,_,_,_,rfl⟩ := mem_copies.mp h
  rfl

theorem copies_region {x : RegionBin Binary32} (h : x ∈ job.copies temporal) :
    ∃ n < job.regions.length,x.key.region = Int32.ofNat n := by
  obtain ⟨_,_,n,r,at_n,_,rfl⟩ := mem_copies.mp h
  exact ⟨n,(List.getElem?_eq_some_iff.mp at_n).1,rfl⟩

/-- No region gets two copies of one cell. -/
theorem copies_distinct (few : job.regions.length < 2^31)
    (distinct : (temporal.flatten.map TemporalBin.index).Nodup) :
    (job.copies temporal).Pairwise fun x y => x.key ≠ y.key := by
  rw [copies,List.pairwise_flatMap]
  constructor
  · intro b _
    refine (Region.fanOut_pairwise few).imp ?_
    intro x y lt eq
    rw [eq] at lt
    exact Int32.lt_irrefl lt
  · refine (List.pairwise_map.mp distinct).imp ?_
    intro b b' ne x hx y hy eq
    obtain ⟨_,_,_,_,rfl⟩ := Region.mem_fanOut.mp hx
    obtain ⟨_,_,_,_,rfl⟩ := Region.mem_fanOut.mp hy
    exact ne (congrArg RegionKey.bin eq)

theorem decode_encodeCopies {bins : List (TemporalBin Binary32)} {b : Bytes}
    (h : job.encodeCopies bins = .ok b) : job.regionCodec.decodeRegion b =
      .ok (bins.flatMap (Region.fanOut job.scheme.grid job.regions)) := by
  apply Codec.decodeRegion_encodeRegion h
  intro x hx
  obtain ⟨_,_,hx⟩ := List.mem_flatMap.mp hx
  obtain ⟨_,_,_,_,rfl⟩ := Region.mem_fanOut.mp hx
  rfl

/-- Bytes in between leave no trace. -/
theorem decode_written {encoded : List Bytes} (h : temporal.mapM job.encodeCopies = .ok encoded) :
    encoded.mapM job.regionCodec.decodeRegion = .ok (temporal.map fun bins =>
      bins.flatMap (Region.fanOut job.scheme.grid job.regions)) := by
  rw [mapM_eq_ok,List.forall₂_map_right_iff]
  exact (mapM_eq_ok.mp h).flip.imp fun _ _ => decode_encodeCopies

theorem regionPass_eq {partitions : List (List (RegionBin Binary32))}
    (h : job.regionPass temporal = .ok partitions) :
    partitions = (List.range (regionRouting job.settings.regionPartitions).partitions).map
      fun id => sortBy RegionBin.key (job.regionShare temporal id) := by
  simp only [regionPass,bind_eq_ok] at h
  obtain ⟨encoded,written,decoded,read,h⟩ := h
  rw [decode_written written] at read
  cases read
  cases h
  have all : (temporal.map fun bins =>
      bins.flatMap (Region.fanOut job.scheme.grid job.regions)).flatten = job.copies temporal := by
    simp only [copies,List.flatMap_def,List.map_flatten,List.flatten_flatten,List.map_map]
    rfl
  rw [shuffle_sorted]
  simp only [share,arrival_numbered,all,regionShare]

/-- The second shuffle keeps every copy. -/
theorem regionPass_perm {partitions : List (List (RegionBin Binary32))}
    (few : job.regions.length < 2^31) (h : job.regionPass temporal = .ok partitions) :
    partitions.flatten.Perm (job.copies temporal) := by
  have inside : ∀ x ∈ job.copies temporal,
      (regionRouting job.settings.regionPartitions).partitionOf x.key <
        (regionRouting job.settings.regionPartitions).partitions := by
    intro x hx
    obtain ⟨n,low,region⟩ := copies_region hx
    have key : x.key = ⟨Int32.ofNat n,x.key.bin⟩ := by rw [← region]
    rw [key]
    exact regionRouting_below (by omega) _
  rw [regionPass_eq h,← List.flatMap_def]
  have parts := flatMap_filter_perm
    (fun x => (regionRouting job.settings.regionPartitions).partitionOf x.key) (job.copies temporal)
    inside
  refine List.Perm.trans ?_ parts
  exact List.Perm.flatMap (List.Perm.refl _) fun id _ => sortBy_perm _

/-- Only features of another number stop the second pass. -/
theorem regionPass_ok (fits : ∀ x ∈ job.copies temporal,job.regionCodec.Fits x.bin.features) :
    ∃ partitions,job.regionPass temporal = .ok partitions := by
  have written : temporal.mapM job.encodeCopies = .ok (temporal.map fun bins =>
      (bins.flatMap (Region.fanOut job.scheme.grid job.regions)).flatMap
        job.regionCodec.regionRecord) := by
    refine mapM_ok fun bins hbins => Codec.encodeRegion_eq_ok_iff.mpr ⟨?_,rfl⟩
    intro x hx
    obtain ⟨b,hb,hx⟩ := List.mem_flatMap.mp hx
    exact fits x (List.mem_flatMap.mpr ⟨b,List.mem_flatten.mpr ⟨bins,hbins,hb⟩,hx⟩)
  simp only [regionPass,bind_eq_ok]
  exact ⟨_,_,written,_,decode_written written,rfl⟩

end Job

end GlobeBins

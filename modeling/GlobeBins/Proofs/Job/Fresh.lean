import GlobeBins.Proofs.Guarded.Entries
import GlobeBins.Proofs.Job.Calls
import GlobeBins.Proofs.Job.Cells

namespace GlobeBins

namespace Ensemble

/-- An output that a bin has, whatever vector it is written over. -/
structure Leaves (e : Ensemble) (b : TemporalBin Binary32) (x : List Binary32) : Prop where
  whole : x.length = e.outputCount
  stored : ∀ out,out.length = e.outputCount → Guarded.storeOutputs e b out = .ok x
  written : ∀ out,out.length = e.outputCount → e.writeOutput b out = x

/-- New bins and outputs show nothing of what their vectors held. -/
structure Fresh (e : Ensemble) : Prop where
  spatial : ∀ index v,v.length = e.spatialCount →
    Guarded.reset e Statistic.spatialNames Statistic.neutralSpatial v =
      .ok (e.newSpatial index).features ∧
    e.resetSpatial v = (e.newSpatial index).features
  temporal : ∀ index v,v.length = e.temporalCount →
    Guarded.reset e Statistic.temporalNames Statistic.neutralTemporal v =
      .ok (e.newTemporal index).features ∧
    e.resetTemporal v = (e.newTemporal index).features
  output : ∀ b,b.features.length = e.temporalCount → ∃ x,e.Leaves b x

variable (e : Ensemble)

theorem leaves {b : TemporalBin Binary32} (width : b.features.length = e.temporalCount) :
    e.Leaves b (outputs e.statistics b.features) where
  whole := outputs_length width
  stored _ := Guarded.storeOutputs_eq width
  written _ := e.writeOutput_eq width

theorem newSpatial_features (index : Int64) :
    (e.newSpatial index).features = e.statistics.flatMap Statistic.neutralSpatial :=
  e.resetSpatial_eq List.length_replicate

theorem newTemporal_features (index : Int64) :
    (e.newTemporal index).features = e.statistics.flatMap Statistic.neutralTemporal :=
  e.resetTemporal_eq List.length_replicate

theorem fresh : e.Fresh where
  spatial index v room := by
    rw [newSpatial_features]
    exact ⟨Guarded.reset_eq Statistic.spatialNames_length Statistic.neutralSpatial_length room,
      e.resetSpatial_eq room⟩
  temporal index v room := by
    rw [newTemporal_features]
    exact ⟨Guarded.reset_eq Statistic.temporalNames_length Statistic.neutralTemporal_length room,
      e.resetTemporal_eq room⟩
  output _ width := ⟨_,e.leaves width⟩

end Ensemble

namespace Job

variable {job : Job}

section

variable {partitions : List (List (RegionBin Binary32))} {b : RegionBin Binary32}
  {out : List Binary32}

/-- The calls of regions with bins hand on each bin with its own output. -/
theorem bin_mem_fullBlocks : .bin b out ∈ (job.fullBlocks partitions).flatMap job.blockCalls ↔
    b ∈ partitions.flatten ∧ job.output b = out := by
  have own (block : Block) : .bin b out ∈ job.blockCalls block ↔ (b,out) ∈ block.bins := by
    simp [blockCalls]
  simp only [List.mem_flatMap,own]
  rw [← List.mem_flatMap,fullBlocks_bins,List.mem_map]
  constructor
  · rintro ⟨_,hb,⟨⟩⟩
    exact ⟨hb,rfl⟩
  · rintro ⟨hb,rfl⟩
    exact ⟨b,hb,rfl⟩

variable (wide : ∀ b ∈ partitions.flatten,job.Wide b)

include wide

theorem bin_mem_productCalls : .bin b out ∈ job.productCalls partitions ↔
    b ∈ partitions.flatten ∧ job.output b = out := by
  rw [productCalls,groupCalls_blocks wide (Ensemble.fillVector_length _),List.mem_append,
    bin_mem_fullBlocks]
  simp

end

theorem regionPass_wide {sources : List (SourceRecords (SpatialBin Binary32))}
    {partitions : List (List (RegionBin Binary32))}
    (copied : job.regionPass (job.temporalPass sources) = .ok partitions) :
    ∀ b ∈ partitions.flatten,job.Wide b := by
  intro b mem
  rw [regionPass_eq copied] at mem
  obtain ⟨p,hp,mem⟩ := List.mem_flatten.mp mem
  obtain ⟨id,_,rfl⟩ := List.mem_map.mp hp
  have share := (sortBy_perm _).mem_iff.mp mem
  exact copies_wide sources b (List.mem_filter.mp share).1

/-- A cell that a region takes is handed on to it. -/
theorem cell_handed (few : job.regions.length < 2^31) {n : Nat}
    {observations : Nat → List Observation} {partitions : List (List (RegionBin Binary32))}
    (copied : job.regionPass (job.temporal n observations) = .ok partitions) {r : Nat}
    {region : Region Binary64} (at_r : job.regions[r]? = some region) {i : Int64}
    (touched : job.scheme.touching ((List.range n).map observations) i ≠ [])
    (takes : region.takes job.scheme.grid i = true) :
    let b := RegionBin.of (Int32.ofNat r)
      (job.scheme.merged ((List.range n).map observations) i)
    .bin b (job.output b) ∈ job.productCalls partitions := by
  intro b
  refine (bin_mem_productCalls (regionPass_wide copied)).mpr ⟨?_,rfl⟩
  rw [(regionPass_perm few copied).mem_iff,mem_copies]
  refine ⟨_,(job.mem_temporal _ _).mpr ⟨i,touched,rfl⟩,r,region,at_r,?_,rfl⟩
  rw [Scheme.merged_index]
  exact takes

theorem Ran.leaves {directory : Option String} {order : List (Nat × String)} {outcome : Outcome}
    {log : List Step} (ran : job.Ran directory order outcome log) {b : RegionBin Binary32}
    {out : List Binary32} {result : Except Fault Unit} (mem : (.bin b out,result) ∈ calls log) :
    job.scheme.ensemble.Leaves b.bin out := by
  obtain ⟨_,partitions,_,made,_,_,copied,performed,same,_⟩ := ran.reached (List.ne_nil_of_mem mem)
  rw [same] at mem
  have planned := performed.made.subset (List.mem_map_of_mem (f := Prod.fst) mem)
  have wide := regionPass_wide copied
  obtain ⟨hb,rfl⟩ := (bin_mem_productCalls wide).mp planned
  exact Ensemble.leaves _ (wide b hb)

end Job

/-- Nothing that a vector held shows once it is filled: not in new bins, not in outputs, not in the
calls for all bins of all regions, which share one vector, and not in the calls of any run. -/
theorem nothing_stale : (∀ e : Ensemble,e.Fresh) ∧
    (∀ (job : Job) (partitions : List (List (RegionBin Binary32))),
      (∀ b ∈ partitions.flatten,job.Wide b) → ∃ made,
        (∀ start,start.length = job.scheme.ensemble.outputCount →
          job.groupCalls start (partitions.flatMap RegionBin.groups) = made) ∧
        ∀ b out,.bin b out ∈ made → job.scheme.ensemble.Leaves b.bin out) ∧
    ∀ (job : Job) (σ : Type) (s : Surroundings (StateM σ)) (order : List (Nat × String)) (w : σ)
      (b : RegionBin Binary32) (out : List Binary32) (result : Except Fault Unit),
      (.bin b out,result) ∈ calls (job.log s order w) → job.scheme.ensemble.Leaves b.bin out := by
  refine ⟨Ensemble.fresh,?_,?_⟩
  · intro job partitions wide
    refine ⟨_,fun start room => Job.groupCalls_blocks wide room,?_⟩
    intro b out mem
    obtain ⟨hb,rfl⟩ := Job.bin_mem_fullBlocks.mp mem
    exact Ensemble.leaves _ (wide b hb)
  · intro job σ s order w b out result mem
    exact (job.ran s order w).leaves mem

/-- Shares of three classes, in a region that takes all of a grid with one bin in each row. -/
def shares : Job :=
  let corners : Ring Binary64 := [⟨-180,-90⟩,⟨180,-90⟩,⟨180,90⟩,⟨-180,90⟩,⟨-180,-90⟩]
  ⟨"shares",.plain,
    ⟨.ofColumns #[1,1] (by decide) (by decide),[⟨"x",none⟩],⟨[.landCover ⟨"x",0,3,by decide⟩]⟩⟩,
    [⟨"world","",[⟨corners,[]⟩],⟨⟨-180,-90⟩,⟨180,90⟩⟩,0⟩]⟩

/-- A cell with no sample of a class, behind one that has shares. -/
theorem nothing_stale_unclassified :
    let ahead : RegionBin Binary32 := ⟨⟨0,0⟩,⟨0,1,1,[0,1,0]⟩⟩
    let behind : RegionBin Binary32 := ⟨⟨0,1⟩,⟨1,1,1,[0,0,0]⟩⟩
    let groups := [[ahead,behind]].flatMap RegionBin.groups
    let log := shares.log (.quiet fun _ => [⟨0,45,0,[1]⟩,⟨0,-45,0,[7]⟩]) [(0,"a")] ()
    (.bin ahead [1,0,1,0],.ok ()) ∈ calls log ∧
      (.bin behind [Binary32.nan,0,0,0],.ok ()) ∈ calls log ∧
      shares.scheme.ensemble.Leaves behind.bin [Binary32.nan,0,0,0] ∧
      shares.groupCalls [1,0,1,0] groups = shares.groupCalls [Binary32.nan,0,0,0] groups ∧
      shares.scheme.ensemble.resetTemporal [1,0,0] = shares.scheme.ensemble.resetTemporal [0,1,0] := by
  intro ahead behind groups log
  let observations : String → List Observation := fun _ => [⟨0,45,0,[1]⟩,⟨0,-45,0,[7]⟩]
  have perm : [(0,"a")].Perm (Job.numbered ["a"]) := .refl _
  obtain ⟨partitions,copied,same,_⟩ := (shares.ran (.quiet observations) [(0,"a")] ()).succeeds perm
    (quiet_undisturbed observations shares perm ()) (quiet_accepts observations shares _ ())
    (by decide) (by decide)
  -- The run does not evaluate as a whole, as it sorts; each cell that it hands on does.
  have handed (i : Int64) {b : RegionBin Binary32} {out : List Binary32}
      (touched : shares.scheme.touching [observations "a"] i ≠ [])
      (takes : shares.regions[0].takes shares.scheme.grid i = true)
      (merged : .of 0 (shares.scheme.merged [observations "a"] i) = b)
      (output : shares.output b = out) : (.bin b out,.ok ()) ∈ calls log := by
    subst merged output
    have planned := Job.cell_handed (by decide) copied (r := 0) rfl touched takes
    exact same ▸ List.mem_map_of_mem planned
  have second : (.bin behind [Binary32.nan,0,0,0],.ok ()) ∈ calls log :=
    handed 1 (by decide +kernel) (by decide +kernel) (by decide +kernel) (by decide)
  obtain ⟨fresh,shared,runs⟩ := nothing_stale
  have wide : ∀ b ∈ [[ahead,behind]].flatten,shares.Wide b := by
    unfold Job.Wide
    decide
  obtain ⟨made,alike,_⟩ := shared shares [[ahead,behind]] wide
  have reset := (fresh shares.scheme.ensemble).temporal 0
  refine ⟨?_,second,runs _ _ _ _ _ _ _ _ second,?_,?_⟩
  · exact handed 0 (by decide +kernel) (by decide +kernel) (by decide +kernel) (by decide)
  · exact (alike _ (by decide)).trans (alike _ (by decide)).symm
  · exact (reset _ (by decide)).2.trans (reset _ (by decide)).2.symm

end GlobeBins

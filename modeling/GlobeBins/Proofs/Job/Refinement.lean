import GlobeBins.Proofs.Job.Calls
import GlobeBins.Proofs.Job.Cells

namespace GlobeBins

namespace ProductCall

/-- The bins that are written while a region is begun and not ended. -/
def handedFrom (r : Int32) : Bool → List ProductCall → List (RegionBin Binary32 × List Binary32)
  | _,[] => []
  | _,.start m::cs => handedFrom r (m.region == r) cs
  | begun,.bin b out::cs =>
    if begun then (b,out)::handedFrom r begun cs else handedFrom r begun cs
  | _,.finish::cs => handedFrom r false cs

def handed (r : Int32) (cs : List ProductCall) : List (RegionBin Binary32 × List Binary32) :=
  handedFrom r false cs

theorem handedFrom_bins (r : Int32) (begun : Bool)
    (bins : List (RegionBin Binary32 × List Binary32)) (cs : List ProductCall) :
    handedFrom r begun (bins.map (fun x => .bin x.1 x.2)++.finish::cs) =
      (if begun then bins else [])++handed r cs := by
  induction bins with
  | nil => cases begun <;> rfl
  | cons x xs ih =>
    rw [List.map_cons,List.cons_append,handedFrom,ih]
    cases begun <;> rfl

/-- In a sequence of blocks a region is handed the bins of its own ones. -/
theorem handed_blocks (job : Job) (r : Int32) (blocks : List Block) :
    handed r (blocks.flatMap job.blockCalls) =
      (blocks.filter fun b => b.region == r).flatMap Block.bins := by
  induction blocks with
  | nil => rfl
  | cons b bs ih =>
    rw [List.flatMap_cons,Job.blockCalls,List.cons_append,List.append_assoc,List.singleton_append,
      handed,handedFrom,handedFrom_bins,ih]
    show (if b.region == r then b.bins else [])++_ = _
    by_cases same : b.region = r
    · simp [same]
    · simp [same]

end ProductCall

namespace Scheme

/-- The bin that a region should get of a cell. -/
structure IsCell (c : Scheme) (partitions : List (List Observation)) (r : Nat) (i : Int64)
    (b : RegionBin Binary32) : Prop where
  key : b.key = ⟨Int32.ofNat r,i⟩
  index : b.bin.index = i
  observations : b.bin.observations.toInt = c.acceptedIn partitions i
  passes : b.bin.passes.toInt = (c.touching partitions i).length
  features : b.bin.features = (c.ensemble.finishTemporal ((c.touching partitions i).foldl
    (fun t os => c.ensemble.addCell (c.cell os i) t) (c.ensemble.newTemporal i))).features

theorem IsCell.unique {c : Scheme} {partitions : List (List Observation)} {r : Nat} {i : Int64}
    {a b : RegionBin Binary32} (ha : c.IsCell partitions r i a) (hb : c.IsCell partitions r i b) :
    a = b := by
  have observations := Int32.toInt_inj.mp (ha.observations.trans hb.observations.symm)
  have passes := Int32.toInt_inj.mp (ha.passes.trans hb.passes.symm)
  obtain ⟨_,_,_,_,_⟩ := a
  obtain ⟨_,_,_,_,_⟩ := b
  simp only at observations passes
  rw [RegionBin.mk.injEq,TemporalBin.mk.injEq]
  exact ⟨ha.key.trans hb.key.symm,ha.index.trans hb.index.symm,observations,passes,
    ha.features.trans hb.features.symm⟩

end Scheme

namespace Job

variable {job : Job}

/-- A region has one block, and is handed what is in it. -/
theorem Protocol.handed {full empty : List Block} (h : job.Protocol full empty)
    (few : job.regions.length < 2^31) {r : Nat} (inside : r < job.regions.length) :
    ∃ b ∈ full++empty,b.region = Int32.ofNat r ∧
      ProductCall.handed (Int32.ofNat r) ((full++empty).flatMap job.blockCalls) = b.bins := by
  have mem : Int32.ofNat r ∈ (full++empty).map Block.region :=
    h.once.mem_iff.mpr (List.mem_map.mpr ⟨r,List.mem_range.mpr inside,rfl⟩)
  have distinct := h.regions_nodup few
  obtain ⟨b,hb,region⟩ := List.mem_map.mp mem
  refine ⟨b,hb,region,?_⟩
  rw [ProductCall.handed_blocks,← region]
  obtain ⟨before,after,split⟩ := List.append_of_mem hb
  rw [split,List.map_append,List.map_cons,List.nodup_append,List.nodup_cons] at distinct
  obtain ⟨_,⟨behind,_⟩,apart⟩ := distinct
  have left : before.filter (fun c => c.region == b.region) = [] := by
    rw [List.filter_eq_nil_iff]
    intro c hc same
    exact apart _ (List.mem_map.mpr ⟨c,hc,rfl⟩) _ List.mem_cons_self (by simpa using same)
  have right : after.filter (fun c => c.region == b.region) = [] := by
    rw [List.filter_eq_nil_iff]
    intro c hc same
    exact behind (List.mem_map.mpr ⟨c,hc,by simpa using same⟩)
  rw [split,List.filter_append,List.filter_cons_of_pos (by simp),left,right]
  simp

/-- A run over partitions with some observations that nothing disturbed and that ended well, and the
calls it made. -/
def Delivers (job : Job) (partitions : List (List Observation)) (made : List ProductCall) : Prop :=
  ∃ (σ : Type) (s : Surroundings (StateM σ)) (names : List String) (order : List (Nat × String))
    (observations : Nat → List Observation) (w : σ) (summary : Summary),
    order.Perm (numbered names) ∧ (List.range names.length).map observations = partitions ∧
      Undisturbed order observations (job.log s order w) ∧
      (job.outcome s order w).result = .ok summary ∧
      (calls (job.log s order w)).map Prod.fst = made

/-- The cells of a region, in ascending order. -/
structure RegionCells (c : Scheme) (partitions : List (List Observation)) (r : Nat)
    (region : Region Binary64) (given : List (RegionBin Binary32 × List Binary32)) : Prop where
  ascending : given.Pairwise fun x y => x.1.bin.index < y.1.bin.index
  cells : ∀ b out,(b,out) ∈ given ↔ ∃ i,c.touching partitions i ≠ [] ∧
    region.takes c.grid i = true ∧ c.IsCell partitions r i b ∧
    ∀ buffer : List Binary32,buffer.length = c.ensemble.outputCount →
      c.ensemble.writeOutput b.bin buffer = out

theorem RegionCells.unique {c : Scheme} {partitions : List (List Observation)} {r : Nat}
    {region : Region Binary64} {given given' : List (RegionBin Binary32 × List Binary32)}
    (h : RegionCells c partitions r region given) (h' : RegionCells c partitions r region given') :
    given = given' := by
  refine eq_of_ascending Int64.lt_asymm h.ascending h'.ascending ?_
  intro x
  obtain ⟨b,out⟩ := x
  rw [h.cells,h'.cells]

end Job

namespace Job

/-- The cells that a region is given in the survey, in ascending order. -/
def surveyGiven (r : Nat) : List Int64 := (surveyCells.lookup r).getD []

theorem Surveyed.given {job : Job} (h : Surveyed job) {r : Nat} {region : Region Binary64}
    (at_r : job.regions[r]? = some region) (i : Int64) : i ∈ surveyGiven r ↔
      job.scheme.touching Settings.surveys i ≠ [] ∧ region.takes job.scheme.grid i = true := by
  have regions : job.regions.length = 4 := (Job.made h.made).regions_length.1
  have inside : r < 4 := regions ▸ (List.getElem?_eq_some_iff.mp at_r).1
  have taken : region.takes job.scheme.grid i = true ↔
      r ∈ Region.takers job.scheme.grid job.regions i := by
    rw [Region.mem_takers]
    constructor
    · exact fun taken => ⟨region,at_r,taken⟩
    · intro some
      obtain ⟨region',at_r',taken⟩ := some
      cases at_r.symm.trans at_r'
      exact taken
  obtain ⟨first,second,third⟩ := h.takers_eq
  have table : ∀ r < 4,(13 ∈ surveyGiven r ↔ r ∈ [0,2]) ∧ (6 ∈ surveyGiven r ↔ r ∈ [0,1,2]) ∧
      (8 ∈ surveyGiven r ↔ r ∈ [1]) ∧ surveyGiven r ⊆ [13,6,8] := by decide +kernel
  obtain ⟨in_13,in_6,in_8,others⟩ := table r inside
  have each : ∀ j ∈ [13,6,8],
      (j ∈ surveyGiven r ↔ r ∈ Region.takers job.scheme.grid job.regions j) := by
    intro j hj
    simp only [List.mem_cons,List.not_mem_nil,or_false] at hj
    obtain rfl | rfl | rfl := hj
    · rw [first,in_13]
    · rw [second,in_6]
    · rw [third,in_8]
  rw [Scheme.touching_ne_nil,h.cells,taken]
  constructor
  · exact fun mem => ⟨others mem,(each i (others mem)).mp mem⟩
  · exact fun known => (each i known.1).mpr known.2

/-- How often a cell of the survey was observed, and in how many partitions. -/
def surveyCounts (i : Int64) : Int64 × Int32 × Int32 := if i = 6 then (i,3,2) else (i,1,1)

theorem Surveyed.merged {job : Job} (h : Surveyed job) {i : Int64}
    (touched : job.scheme.touching Settings.surveys i ≠ []) :
    let b := job.scheme.merged Settings.surveys i
    (b.index,b.observations,b.passes) = surveyCounts i := by
  intro b
  have accepted := h.accepted
  have touching := h.touching
  simp only [List.map_cons,List.map_nil,List.cons.injEq,and_true] at accepted touching
  obtain ⟨first,second,third⟩ := accepted
  obtain ⟨first',second',third'⟩ := touching
  rw [Scheme.touching_ne_nil,h.cells] at touched
  simp only [List.mem_cons,List.not_mem_nil,or_false] at touched
  simp only [b,Scheme.merged_index,Scheme.merged_observations,Scheme.merged_passes]
  obtain rfl | rfl | rfl := touched
  · rw [first,first']
    rfl
  · rw [second,second']
    rfl
  · rw [third,third']
    rfl

end Job

/-- The survey with cells, regions and spills dealt with in another way. -/
def Settings.survey' : Settings :=
  {survey with reducers := 1,regionPartitions := 3,byteOrder := .little}

/-- Another job over the survey, and what it sends with the partitions taken in order. -/
theorem Job.Surveyed.again {job : Job} (h : Surveyed job) :
    ∃ job',makeWith Grid.fourRows "again" .survey' = .ok job' ∧ job'.scheme = job.scheme ∧
      job'.regions = job.regions ∧ job'.Delivers Settings.surveys
        ((calls (job'.log (.quiet Settings.surveyed) (numbered ["a","b","c"]) ())).map Prod.fst) := by
  let job' : Job := ⟨"again",.survey',job.scheme,job.regions⟩
  have valid : Settings.survey'.validate = .ok () := by decide +kernel
  have made : makeWith Grid.fourRows "again" .survey' = .ok job' :=
    (Job.made h.made).again valid rfl rfl rfl rfl "again"
  let s : Surroundings (StateM Unit) := .quiet Settings.surveyed
  let order := numbered ["a","b","c"]
  have perm : order.Perm (numbered ["a","b","c"]) := .refl _
  have calm : Undisturbed order surveyPart (job'.log s order ()) :=
    quiet_undisturbed Settings.surveyed job' perm ()
  obtain ⟨_,_,_,result⟩ := (job'.ran s order ()).succeeds perm calm (quiet_accepts _ job' _ ())
    h.narrow.1 h.narrow.2
  exact ⟨job',made,rfl,rfl,Unit,s,["a","b","c"],order,surveyPart,(),_,perm,surveyParts,calm,result,
    rfl⟩

end GlobeBins

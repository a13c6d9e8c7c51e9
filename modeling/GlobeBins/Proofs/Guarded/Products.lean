import GlobeBins.Proofs.Guarded.Bins
import GlobeBins.Proofs.Job.Blocks

namespace GlobeBins

namespace Guarded

section

variable (job : Job)

def metadata (region : Int32) : Except Stop Metadata := do
  let r ← item job.regions (position region)
  return ⟨job.id,region,r.name,r.wkt,job.settings.period,job.scheme.grid.rows,
    job.scheme.ensemble.outputNames⟩

def binCalls : List Binary32 → List (RegionBin Binary32) →
    Except Stop (List ProductCall × List Binary32)
  | out,[] => return ([.finish],out)
  | out,b::bs => do
    let output ← writeOutput job.scheme.ensemble b.bin out
    let (calls,last) ← binCalls output bs
    return (.bin b output::calls,last)

/-- Calls for the groups, and which regions have been begun. -/
def groupCalls : List Bool → List Binary32 → List (List (RegionBin Binary32)) →
    Except Stop (List ProductCall × List Bool)
  | begun,_,[] => return ([],begun)
  | begun,out,g::gs => do
    let first ← item g 0
    let header ← metadata job first.key.region
    let (calls,last) ← binCalls job out g
    let begun ← store begun (position first.key.region) true
    let (rest,begun) ← groupCalls begun last gs
    return (.start header::calls++rest,begun)

def emptyCalls (begun : List Bool) (i : Nat) : Except Stop (List ProductCall) := do
  if ← item begun i then return []
  else return [.start (← metadata job (Int32.ofNat i)),.finish]

def productCalls (partitions : List (List (RegionBin Binary32))) :
    Except Stop (List ProductCall) := do
  let out ← fillVector job.scheme.ensemble
  let none := List.replicate job.regions.length false
  let (calls,begun) ← groupCalls job none out (partitions.flatMap RegionBin.groups)
  let empty ← (List.range begun.length).mapM (emptyCalls job begun)
  return calls++empty.flatten

/-- Which regions some bins belong to. -/
def flags (bins : List (RegionBin Binary32)) : List Bool :=
  (List.range job.regions.length).map fun i => bins.any fun b => b.key.region == Int32.ofNat i

end

section

variable {job : Job}

theorem flags_length (bins : List (RegionBin Binary32)) :
    (flags job bins).length = job.regions.length := by
  simp [flags]

theorem flags_getElem? {bins : List (RegionBin Binary32)} {i : Nat}
    (h : i < job.regions.length) :
    (flags job bins)[i]? = some (bins.any fun b => b.key.region == Int32.ofNat i) := by
  simp [flags,h]

theorem metadata_eq (few : job.regions.length < 2^31) {r : Nat} (inside : r < job.regions.length) :
    metadata job (Int32.ofNat r) = .ok (job.metadata (Int32.ofNat r)) := by
  have low : r < 2^31 := Nat.lt_trans inside few
  have found : job.regions[r]? = some job.regions[r] := List.getElem?_eq_getElem inside
  rw [metadata,position_ofNat low,item_eq found,ok_bind,Job.metadata]
  simp only [toNat_ofNat low,found]
  rfl

theorem binCalls_eq {bs : List (RegionBin Binary32)} (wide : ∀ b ∈ bs,job.Wide b)
    {out : List Binary32} (room : out.length = job.scheme.ensemble.outputCount) :
    binCalls job out bs = .ok (job.binCalls out bs) := by
  induction bs generalizing out with
  | nil => rfl
  | cons b bs ih =>
    have own := wide b (by simp)
    have rest := ih (fun c hc => wide c (by simp [hc])) (Job.output_length own)
    rw [binCalls,writeOutput_eq own room,ok_bind,Job.output_eq own room,rest,ok_bind,Job.binCalls,
      Job.output_eq own room]
    rfl

/-- A group marks its own region. -/
theorem flags_append (few : job.regions.length < 2^31) {seen g : List (RegionBin Binary32)}
    {r : Nat} (inside : r < job.regions.length) (some : g ≠ [])
    (own : ∀ b ∈ g,b.key.region = Int32.ofNat r) :
    (flags job seen).set r true = flags job (seen++g) := by
  have same : ∀ i < job.regions.length,
      (g.any fun b => b.key.region == Int32.ofNat i) = decide (r = i) := by
    intro i hi
    rw [Bool.eq_iff_iff,List.any_eq_true,decide_eq_true_iff]
    constructor
    · intro h
      obtain ⟨b,hb,eq⟩ := h
      rw [own b hb,beq_iff_eq] at eq
      exact ofNat_injective (by omega) (by omega) eq
    · intro eq
      subst eq
      obtain ⟨b,hb⟩ := List.exists_mem_of_ne_nil g some
      exact ⟨b,hb,by rw [own b hb,beq_self_eq_true]⟩
  apply List.ext_getElem?
  intro i
  by_cases hi : i < job.regions.length
  · rw [List.getElem?_set,flags_length,flags_getElem? hi,flags_getElem? hi,List.any_append,
      same i hi]
    by_cases eq : r = i
    · simp [eq,hi]
    · simp [eq]
  · have beyond : job.regions.length ≤ i := Nat.le_of_not_lt hi
    rw [List.getElem?_eq_none (by rw [List.length_set,flags_length]; exact beyond),
      List.getElem?_eq_none (by rw [flags_length]; exact beyond)]

theorem groupCalls_eq (few : job.regions.length < 2^31) {gs : List (List (RegionBin Binary32))}
    (groups : ∀ g ∈ gs,g ≠ [] ∧ ∃ r < job.regions.length,∀ b ∈ g,b.key.region = Int32.ofNat r)
    (wide : ∀ g ∈ gs,∀ b ∈ g,job.Wide b) (seen : List (RegionBin Binary32)) {out : List Binary32}
    (room : out.length = job.scheme.ensemble.outputCount) :
    groupCalls job (flags job seen) out gs =
      .ok (job.groupCalls out gs,flags job (seen++gs.flatten)) := by
  induction gs generalizing seen out with
  | nil =>
    rw [List.flatten_nil,List.append_nil]
    rfl
  | cons g gs ih =>
    obtain ⟨some,r,inside,own⟩ := groups g (by simp)
    obtain ⟨b,bs,rfl⟩ := List.exists_cons_of_ne_nil some
    have region : b.key.region = Int32.ofNat r := own b (by simp)
    have place : position (Int32.ofNat r) = r := position_ofNat (Nat.lt_trans inside few)
    have bins := binCalls_eq (wide (b::bs) (by simp)) room
    obtain ⟨last,length,calls⟩ := Job.binCalls_eq (wide (b::bs) (by simp)) room
    have begun : store (flags job seen) r true = .ok (flags job (seen++b::bs)) := by
      rw [store_eq (by rw [flags_length]; exact inside),flags_append few inside some own]
    have rest := ih (fun g hg => groups g (by simp [hg])) (fun g hg => wide g (by simp [hg]))
      (seen++b::bs) length
    simp only [groupCalls,item,List.getElem?_cons_zero,ok_bind,region,metadata_eq few inside,bins,
      calls,place,begun,rest,Job.groupCalls,List.flatten_cons,List.append_assoc]
    rfl

theorem emptyCalls_eq (few : job.regions.length < 2^31) (bins : List (RegionBin Binary32)) {i : Nat}
    (inside : i < job.regions.length) : emptyCalls job (flags job bins) i =
      .ok (if bins.any fun b => b.key.region == Int32.ofNat i then []
        else [.start (job.metadata (Int32.ofNat i)),.finish]) := by
  rw [emptyCalls,item_eq (flags_getElem? inside),ok_bind,metadata_eq few inside]
  split <;> rfl

theorem emptyRegions_calls (bins : List (RegionBin Binary32)) :
    ((List.range job.regions.length).map fun i =>
      if bins.any fun b => b.key.region == Int32.ofNat i then []
      else [ProductCall.start (job.metadata (Int32.ofNat i)),.finish]).flatten =
    (job.emptyRegions bins).flatMap fun i => [.start (job.metadata i),.finish] := by
  rw [Job.emptyRegions]
  induction List.range job.regions.length with
  | nil => rfl
  | cons i ids ih =>
    rw [List.map_cons,List.flatten_cons,ih,List.map_cons,List.filter_cons]
    cases bins.any fun b => b.key.region == Int32.ofNat i with
    | false => rfl
    | true => rfl

/-- Copies have the numbers of regions and the width of the statistics. -/
theorem productCalls_eq (few : job.regions.length < 2^31)
    {partitions : List (List (RegionBin Binary32))}
    (numbered : ∀ b ∈ partitions.flatten,∃ r < job.regions.length,b.key.region = Int32.ofNat r)
    (wide : ∀ b ∈ partitions.flatten,job.Wide b) :
    productCalls job partitions = .ok (job.productCalls partitions) := by
  have inside : ∀ g ∈ partitions.flatMap RegionBin.groups,∀ b ∈ g,b ∈ partitions.flatten := by
    intro g hg b hb
    obtain ⟨p,hp,hg⟩ := List.mem_flatMap.mp hg
    exact List.mem_flatten.mpr ⟨p,hp,Job.group_subset hg hb⟩
  have groups : ∀ g ∈ partitions.flatMap RegionBin.groups,
      g ≠ [] ∧ ∃ r < job.regions.length,∀ b ∈ g,b.key.region = Int32.ofNat r := by
    intro g hg
    obtain ⟨p,hp,hp'⟩ := List.mem_flatMap.mp hg
    have some := Job.group_ne_nil hp'
    obtain ⟨a,ha⟩ := List.exists_mem_of_ne_nil g some
    obtain ⟨r,low,region⟩ := numbered a (inside g hg a ha)
    refine ⟨some,r,low,fun b hb => ?_⟩
    rw [← region]
    exact Std.LawfulEqOrd.eq_of_compare (runs_same_key hp' hb ha)
  have none : List.replicate job.regions.length false = flags job [] := by
    simp [flags]
  have calls := groupCalls_eq few groups (fun g hg b hb => wide b (inside g hg b hb)) []
    (Ensemble.fillVector_length job.scheme.ensemble)
  rw [List.nil_append,Job.groups_flatten] at calls
  have empty : (List.range (flags job partitions.flatten).length).mapM
      (emptyCalls job (flags job partitions.flatten)) =
      .ok ((List.range job.regions.length).map fun i =>
        if partitions.flatten.any fun b => b.key.region == Int32.ofNat i then []
        else [.start (job.metadata (Int32.ofNat i)),.finish]) := by
    rw [flags_length]
    exact mapM_ok fun i hi => emptyCalls_eq few _ (List.mem_range.mp hi)
  rw [productCalls,fillVector_eq,ok_bind]
  simp only [none,calls,ok_bind,empty,emptyRegions_calls]
  rfl

end

end Guarded

end GlobeBins

import GlobeBins.Proofs.Statistic.Lifetime

namespace GlobeBins

namespace Statistic

/-- The samples at one position, of those that have one there. -/
def samplesAt (source : Nat) (samples : List (List Binary32)) : List Binary32 :=
  samples.filterMap (·[source]?)

variable {source : Nat} {samples : List (List Binary32)}

theorem samplesAt_append (samples : List (List Binary32)) (xs : List Binary32) :
    samplesAt source (samples++[xs]) = samplesAt source samples++xs[source]?.toList := by
  rw [samplesAt,List.filterMap_append,← samplesAt]
  cases found : xs[source]? <;> simp [found]

theorem samplesAt_length (sampled : ∀ xs ∈ samples,source < xs.length) :
    (samplesAt source samples).length = samples.length := by
  induction samples using List.reverseRecOn with
  | nil => rfl
  | append_singleton samples xs ih =>
    obtain ⟨rest,own⟩ := List.forall_mem_append.mp sampled
    have found := List.getElem?_eq_getElem (own xs (List.mem_singleton_self xs))
    rw [samplesAt_append,List.length_append,List.length_append,ih rest,found]
    rfl

/-- Folding samples looks at one position only. -/
theorem foldl_foldSample (f : Binary32 → List Binary32 → List Binary32) (v : List Binary32) :
    samples.foldl (fun v xs => foldSample source f xs v) v =
      (samplesAt source samples).foldl (fun v x => f x v) v := by
  induction samples using List.reverseRecOn with
  | nil => rfl
  | append_singleton samples xs ih =>
    rw [samplesAt_append,List.foldl_append,List.foldl_append,ih]
    cases found : xs[source]? <;> simp [foldSample,found]

end Statistic

/-- What a statistic of one variable does with a sample, with a count, and with a finished vector and
its count. -/
structure Phases (α : Type) where
  addSample : α → List α → List α
  finish : Int → List α → List α
  merge : List α → Int → List α → List α

namespace Phases

section

variable {α : Type} [Arithmetic α] (m : Phases α)

/-- What the samples of one partition come to. -/
def summary (xs : List α) : List α :=
  m.finish xs.length (xs.foldl (fun v x => m.addSample x v) [Arithmetic.zero,Arithmetic.zero])

/-- One more partition is merged. -/
def addPartition (v xs : List α) : List α := m.merge (m.summary xs) xs.length v

/-- What the samples of some partitions come to. -/
def pooled (partitions : List (List α)) : List α :=
  partitions.foldl m.addPartition [Arithmetic.zero,Arithmetic.zero,Arithmetic.zero]

theorem pooled_append (partitions : List (List α)) (xs : List α) :
    m.pooled (partitions++[xs]) = m.addPartition (m.pooled partitions) xs := by
  simp only [pooled,List.foldl_append,List.foldl_cons,List.foldl_nil]

end

/-- The statistic does this with the samples at a position. -/
structure Of (m : Phases Binary32) (source : Nat) (s : Statistic) : Prop where
  neutralSpatial : s.neutralSpatial = [0,0]
  neutralTemporal : s.neutralTemporal = [0,0,0]
  addSamples : ∀ xs v,s.addSamples xs v = Statistic.foldSample source m.addSample xs v
  finishSpatial : ∀ n v,s.finishSpatial n v = m.finish n v
  addCell : ∀ cell n v,s.addCell cell n v = m.merge cell n v

variable {m : Phases Binary32} {source : Nat} {s : Statistic}
  {partitions : List (List (List Binary32))}

theorem Of.summary (of : m.Of source s) {samples : List (List Binary32)}
    (sampled : ∀ xs ∈ samples,source < xs.length) :
    s.summary samples = m.summary (Statistic.samplesAt source samples) := by
  have folded : s.folded samples =
      (Statistic.samplesAt source samples).foldl (fun v x => m.addSample x v) [0,0] := by
    rw [← Statistic.foldl_foldSample,Statistic.folded,of.neutralSpatial]
    simp only [of.addSamples]
  rw [Statistic.summary,of.finishSpatial,folded,Phases.summary,Statistic.samplesAt_length sampled]
  rfl

/-- Where every sample is there, the vector is that of the samples alone. -/
theorem Of.lived (of : m.Of source s)
    (sampled : ∀ samples ∈ partitions,∀ xs ∈ samples,source < xs.length) :
    s.lived partitions = m.pooled (partitions.map (Statistic.samplesAt source)) := by
  induction partitions using List.reverseRecOn with
  | nil => exact of.neutralTemporal
  | append_singleton partitions samples ih =>
    obtain ⟨rest,own⟩ := List.forall_mem_append.mp sampled
    have here := own samples (List.mem_singleton_self samples)
    rw [Statistic.lived_append,ih rest,List.map_append,List.map_singleton,pooled_append,
      Statistic.addPartition,of.addCell,of.summary here,addPartition,
      Statistic.samplesAt_length here]

end Phases

section

variable {α : Type} [Arithmetic α]

namespace Average

/-- Means of partitions are merged with a power of their counts. -/
def phases (weight : Binary64) : Phases α :=
  ⟨addSample,divideByCount,fun cell count => addCell (Arithmetic.countPower count weight) cell⟩

theorem phases_of (a : Average) : (phases a.weight).Of a.source (.average a) :=
  ⟨rfl,rfl,fun _ _ => rfl,fun _ _ => rfl,fun _ _ _ => rfl⟩

end Average

namespace LogAverage

def phases : Phases α := ⟨addSample,divideByRoot,addCell⟩

theorem phases_of (l : LogAverage) : phases.Of l.source (.logAverage l) :=
  ⟨rfl,rfl,fun _ _ => rfl,fun _ _ => rfl,fun _ _ _ => rfl⟩

end LogAverage

end

end GlobeBins

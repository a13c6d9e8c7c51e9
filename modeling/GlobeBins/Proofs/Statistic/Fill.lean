import GlobeBins.Proofs.Numeric.Positive
import GlobeBins.Proofs.SpatialPass.Acceptance
import GlobeBins.Proofs.Statistic.Extremes
import GlobeBins.Proofs.Statistic.Pooling

namespace GlobeBins

namespace Statistic

variable {s : Statistic} {v : List Binary32} {weight : Nat → Binary32}
  {partitions : List (List (List Binary32))}

/-- What is written if this is the fill value. -/
def outputWith (fill : Binary32) (v : List Binary32) : Statistic → List Binary32
  | average _ => Average.output fill v
  | logAverage _ => LogAverage.output fill v
  | extremes _ => Extremes.output fill v
  | s => s.output v

theorem outputWith_fill (s : Statistic) (v : List Binary32) : s.outputWith s.fill v = s.output v := by
  cases s <;> rfl

/-- Whatever the fill value is, every output is it. -/
def Filled (s : Statistic) (v : List Binary32) : Prop :=
  ∀ fill,s.outputWith fill v = List.replicate s.outputWidth fill

theorem Filled.output (filled : s.Filled v) : s.output v = List.replicate s.outputWidth s.fill :=
  (s.outputWith_fill v).symm.trans (filled s.fill)

/-- What is written otherwise does not depend on the fill value. -/
theorem filled_iff_not {p : Prop} (other : p → ∀ fill,s.outputWith fill v = s.outputWith 0 v)
    (without : ¬p → s.Filled v) : s.Filled v ↔ ¬p := by
  refine ⟨fun filled holds => ?_,without⟩
  have width : s.outputWidth ≠ 0 := by cases s <;> simp [outputWidth]
  have same := other holds 1
  rw [filled 0,filled 1,List.replicate_right_inj width] at same
  exact absurd same (by decide)

/-- Merging adds a weight of the count to the last of three entries, whatever becomes of the others. -/
structure Weighs (s : Statistic) (weight : Nat → Binary32) : Prop where
  neutral : s.neutralTemporal = [0,0,0]
  addCell : ∀ cell n a b t,cell.length = s.spatialWidth →
    ∃ a' b',s.addCell cell (n : Nat) [a,b,t] = [a',b',t+weight n]

theorem Weighs.lived (weighs : s.Weighs weight) (partitions : List (List (List Binary32))) :
    ∃ a b,s.lived partitions =
      [a,b,(partitions.map fun samples => weight samples.length).foldl (·+·) 0] := by
  induction partitions using List.reverseRecOn with
  | nil => exact ⟨0,0,weighs.neutral⟩
  | append_singleton partitions samples ih =>
    obtain ⟨a,b,eq⟩ := ih
    obtain ⟨a',b',next⟩ := weighs.addCell (s.summary samples) samples.length a b
      ((partitions.map fun samples => weight samples.length).foldl (·+·) 0) (s.summary_length samples)
    refine ⟨a',b',?_⟩
    rw [lived_append,eq,addPartition,next,List.map_append,List.foldl_append]
    rfl

/-- With weights that are not negative and a fill value for want of weight, only weights of zero are
filled. -/
theorem Weighs.filled_iff (weighs : s.Weighs weight)
    (nonneg : ∀ samples ∈ partitions,0 ≤ weight samples.length)
    (branch : ∀ a b t,s.Filled [a,b,t] ↔ ¬0 < t) :
    s.Filled (s.lived partitions) ↔ ∀ samples ∈ partitions,¬0 < weight samples.length := by
  obtain ⟨a,b,eq⟩ := weighs.lived partitions
  have sum := (Binary32.zero_lt_sum (List.forall_mem_map.mpr nonneg)).2
  rw [eq,branch,sum]
  simp

theorem mem_nonempty {samples : List (List Binary32)} :
    samples ∈ partitions.filter (· ≠ []) ↔ samples ∈ partitions ∧ samples ≠ [] := by
  rw [List.mem_filter,decide_eq_true_eq]

theorem forall_nonempty : (∀ samples ∈ partitions.filter (· ≠ []),samples = []) ↔
    ∀ samples ∈ partitions,samples = [] := by
  simp only [mem_nonempty]
  exact ⟨fun none samples mem => by_contra fun some => some (none samples ⟨mem,some⟩),
    fun none samples mem => none samples mem.1⟩

end Statistic

section

variable {partitions : List (List (List Binary32))}

namespace Average

variable (a : Average)

/-- The weights are 1, or the counts. -/
def Plain : Prop := a.weight.equal 0 = true ∨ a.weight.equal 1 = true

theorem weighs : (Statistic.average a).Weighs fun n => Arithmetic.countPower n a.weight where
  neutral := rfl
  addCell cell n b c t length := by
    obtain ⟨d,e,rfl⟩ := List.length_eq_two.mp length
    exact ⟨_,_,rfl⟩

theorem filled_iff (b c t : Binary32) : (Statistic.average a).Filled [b,c,t] ↔ ¬0 < t := by
  have branch : moments? [b,c,t] =
    if 0 < t then some (b/t,c/t-b/t*(b/t)) else none := rfl
  apply Statistic.filled_iff_not
  · intro positive fill
    simp only [Statistic.outputWith,output,branch,if_pos positive]
  · intro none fill
    simp only [Statistic.outputWith,output,branch,if_neg none]
    rfl

variable {a}

theorem Plain.weight_pos (plain : a.Plain) {n : Nat} (pos : 0 < n) :
    (0 : Binary32) < Arithmetic.countPower n a.weight := by
  change 0 < Binary32.ofDouble (Binary64.power _ _)
  rw [Binary64.power]
  split_ifs with zeroth first
  · decide
  · exact Binary32.ofDouble_pos pos
  · exact absurd plain (by simp [Plain,zeroth,first])

/-- An average has weight if one of its counts has. -/
theorem lived_filled_iff (powers : ¬a.Plain → ∀ samples ∈ partitions,samples ≠ [] →
      0 ≤ Binary64.power (.ofInt samples.length) a.weight) :
    (Statistic.average a).Filled ((Statistic.average a).lived (partitions.filter (· ≠ []))) ↔
      ∀ samples ∈ partitions,samples ≠ [] →
        ¬(0 : Binary32) < Arithmetic.countPower samples.length a.weight := by
  have nonneg : ∀ samples ∈ partitions.filter (· ≠ []),
      (0 : Binary32) ≤ Arithmetic.countPower samples.length a.weight := by
    intro samples mem
    obtain ⟨part,some⟩ := Statistic.mem_nonempty.mp mem
    by_cases plain : a.Plain
    · exact Binary32.le_of_lt (plain.weight_pos (List.length_pos_iff.mpr some))
    · exact Binary32.ofDouble_nonneg (powers plain samples part some)
  rw [a.weighs.filled_iff nonneg a.filled_iff]
  simp only [Statistic.mem_nonempty,and_imp]

end Average

namespace LogAverage

variable (l : LogAverage)

theorem weighs : (Statistic.logAverage l).Weighs fun n =>
    Binary32.sqrt (Binary32.ofInt (max n 0)) where
  neutral := rfl
  addCell cell n b c t length := by
    obtain ⟨d,e,rfl⟩ := List.length_eq_two.mp length
    exact ⟨_,_,rfl⟩

theorem filled_iff (b c t : Binary32) : (Statistic.logAverage l).Filled [b,c,t] ↔ ¬0 < t := by
  have branch : logMoments? [b,c,t] = if 0 < t then some (b/t,c/t) else none := rfl
  apply Statistic.filled_iff_not
  · intro positive fill
    simp only [Statistic.outputWith,output,branch,if_pos positive]
  · intro none fill
    simp only [Statistic.outputWith,output,branch,if_neg none]
    rfl

/-- Only no observations have no root. -/
theorem root_pos {n : Nat} : 0 ≤ Binary32.sqrt (Binary32.ofInt (max n 0)) ∧
    (¬0 < Binary32.sqrt (Binary32.ofInt (max n 0)) ↔ n = 0) := by
  obtain rfl | some := Nat.eq_zero_or_pos n
  · exact ⟨by decide +kernel,iff_of_true (by decide +kernel) rfl⟩
  · have positive : 0 < Binary32.sqrt (Binary32.ofInt (max n 0)) := by
      rw [max_eq_left (Int.natCast_nonneg n),Binary32.ofInt_natCast]
      exact Binary32.sqrt_pos (Binary32.ofNat_pos some)
    exact ⟨Binary32.le_of_lt positive,iff_of_false (not_not_intro positive) some.ne'⟩

/-- A logarithmic average has weight if there are samples. -/
theorem lived_filled_iff : (Statistic.logAverage l).Filled ((Statistic.logAverage l).lived partitions) ↔
    ∀ samples ∈ partitions,samples = [] := by
  rw [l.weighs.filled_iff (fun _ _ => root_pos.1) l.filled_iff]
  simp only [root_pos.2,List.length_eq_zero_iff]

end LogAverage

namespace Extremes

variable {e : Extremes} {xs v : List Binary32}

/-- Only the starts have not met. -/
theorem Spans.filled_iff (spans : Spans xs v) : (Statistic.extremes e).Filled v ↔ xs = [] := by
  obtain ⟨a,b,rfl,least,greatest⟩ := spans
  have branch : (Statistic.extremes e).Filled [a,b] ↔ ¬a ≤ b := by
    apply Statistic.filled_iff_not
    · intro met fill
      simp only [Statistic.outputWith,output,if_pos met]
    · intro apart fill
      simp only [Statistic.outputWith,output,if_neg apart]
      rfl
  rw [branch]
  cases least with
  | none empty =>
    cases greatest with
    | none _ => exact iff_of_true (by decide) empty
    | some mem _ => simp [empty] at mem
  | some mem first =>
    cases greatest with
    | none empty => simp [empty] at mem
    | some mem' _ => exact iff_of_false (not_not_intro (first b mem')) (List.ne_nil_of_mem mem)

end Extremes

end

namespace Statistic

variable {vs : List Variable} {index : Nat} {setting : StatisticSetting} {s : Statistic}
  {partitions : List (List (List Binary32))}

/-- An average that gives this count no weight. -/
def Weightless (s : Statistic) (n : Nat) : Prop :=
  ∃ a,s = .average a ∧ ¬(0 : Binary32) < Arithmetic.countPower n a.weight

/-- Accepted samples have one for each variable, and it is a number. -/
theorem accepted_sample {xs : List Binary32} (accepted : Variable.refuses vs xs = false) {i : Nat}
    (within : i < vs.length) : ∃ x,xs[i]? = some x ∧ x.isNaN = false := by
  obtain ⟨enough,lets⟩ := Variable.refuses_iff.mp accepted
  have found : xs[i]? = some xs[i] := List.getElem?_eq_getElem (by omega)
  have named : vs[i]? = some vs[i] := List.getElem?_eq_getElem within
  exact ⟨_,found,Binary32.not_isNaN (lets i _ _ named found).finite⟩

/-- The extremes of accepted samples have met if there are some. -/
theorem extremes_filled {e : Extremes} (within : e.source < vs.length)
    (accepted : ∀ samples ∈ partitions,∀ xs ∈ samples,Variable.refuses vs xs = false) :
    (extremes e).Filled ((extremes e).lived partitions) ↔ ∀ samples ∈ partitions,samples = [] := by
  have sampled : ∀ xs ∈ partitions.flatten,∃ x,xs[e.source]? = some x ∧ x.isNaN = false := by
    intro xs mem
    obtain ⟨samples,part,own⟩ := List.mem_flatten.mp mem
    exact accepted_sample (accepted samples part xs own) within
  have numbers : ∀ x ∈ e.seen partitions.flatten,x.isNaN = false := by
    intro x mem
    obtain ⟨xs,own,found⟩ := List.mem_filterMap.mp mem
    obtain ⟨y,same,number⟩ := sampled xs own
    rw [same] at found
    exact Option.some.inj found ▸ number
  have count : (e.seen partitions.flatten).length = partitions.flatten.length := by
    apply samplesAt_length
    intro xs mem
    obtain ⟨x,found,_⟩ := sampled xs mem
    exact (List.getElem?_eq_some_iff.mp found).1
  rw [(Extremes.lived_spans numbers).filled_iff,← List.length_eq_zero_iff,count,
    List.length_eq_zero_iff,List.flatten_eq_nil_iff]

/-- Cells without accepted samples get the fill value. Of the cells with some, those of an average get it
if the count in each partition, to its power, is rounded to zero; that takes another power than 0 and 1.
For these other powers the machine is taken to give no negative results. -/
theorem lived_filled (made : ofSetting vs index setting = .ok s)
    (kind : s.typeName ∈ ["AVG","AVG_ML","MIN_MAX"])
    (accepted : ∀ samples ∈ partitions,∀ xs ∈ samples,Variable.refuses vs xs = false)
    (powers : ∀ a,s = .average a → ¬a.Plain → ∀ samples ∈ partitions,samples ≠ [] →
      0 ≤ Binary64.power (.ofInt samples.length) a.weight) :
    (s.Filled (s.lived (partitions.filter (· ≠ []))) ↔
      ∀ samples ∈ partitions,samples ≠ [] → s.Weightless samples.length) ∧
    ((∀ a,s = .average a → a.Plain) →
      (s.Filled (s.lived (partitions.filter (· ≠ []))) ↔ ∀ samples ∈ partitions,samples = [])) := by
  have filled : s.Filled (s.lived (partitions.filter (· ≠ []))) ↔
      ∀ samples ∈ partitions,samples ≠ [] → s.Weightless samples.length := by
    have none (other : ∀ n,¬s.Weightless n) : (∀ samples ∈ partitions,samples = []) ↔
        ∀ samples ∈ partitions,samples ≠ [] → s.Weightless samples.length := by
      simp [other]
    cases s with
    | average a =>
      rw [Average.lived_filled_iff (powers a rfl)]
      simp only [Weightless,average.injEq,exists_eq_left']
    | logAverage l =>
      rw [l.lived_filled_iff,forall_nonempty,none (by simp [Weightless])]
    | extremes e =>
      have within := (ofSetting_named made).within e.source (by simp [reads])
      rw [extremes_filled within fun samples mem => accepted samples (mem_nonempty.mp mem).1,
        forall_nonempty,none (by simp [Weightless])]
    | _ => simp [typeName] at kind
  refine ⟨filled,fun plain => ?_⟩
  rw [filled]
  constructor
  · intro weightless samples mem
    by_contra some
    obtain ⟨a,rfl,no⟩ := weightless samples mem some
    exact no ((plain a rfl).weight_pos (List.length_pos_iff.mpr some))
  · exact fun none samples mem some => absurd (none samples mem) some

/-- Counts to the power of -200. -/
def faint : Average := ⟨"x",0,⟨0xc069000000000000⟩,Binary32.nan⟩

theorem ofSetting_faint : ofSetting [⟨"x",none⟩] 0 ⟨"AVG","x",[("weight_coeff","-200")]⟩ =
    .ok (.average faint) := by decide +kernel

/-- One observation has weight, and so the two of another partition do not matter. -/
theorem lived_filled_faint :
    (average faint).typeName ∈ ["AVG","AVG_ML","MIN_MAX"] ∧
    (∀ samples ∈ [[[1]],[],[[1],[1]]],∀ xs ∈ samples,Variable.refuses [⟨"x",none⟩] xs = false) ∧
    (∀ samples ∈ [[[1]],[],[[(1 : Binary32)],[1]]],samples ≠ [] →
      0 ≤ Binary64.power (.ofInt samples.length) faint.weight) ∧
    ¬(average faint).Filled ((average faint).lived ([[[1]],[],[[1],[1]]].filter (· ≠ []))) := by
  have kind : (average faint).typeName ∈ ["AVG","AVG_ML","MIN_MAX"] := by decide
  have accepted : ∀ samples ∈ [[[1]],[],[[1],[1]]],∀ xs ∈ samples,
      Variable.refuses [⟨"x",none⟩] xs = false := by decide +kernel
  have powers : ∀ samples ∈ [[[1]],[],[[(1 : Binary32)],[1]]],samples ≠ [] →
      0 ≤ Binary64.power (.ofInt samples.length) faint.weight := by decide +kernel
  refine ⟨kind,accepted,powers,fun filled => ?_⟩
  obtain ⟨a,same,none⟩ := (lived_filled ofSetting_faint kind accepted
    (fun a same _ => average.inj same ▸ powers)).1.mp filled [[1]] (by simp) (by simp)
  obtain rfl := average.inj same
  exact none (by decide +kernel)

/-- Without another partition these two are a cell with data that gets the fill value. -/
theorem faint_filled :
    ofSetting [⟨"x",none⟩] 0 ⟨"AVG","x",[("weight_coeff","-200")]⟩ = .ok (.average faint) ∧
    (∀ samples ∈ [[[1],[1]]],∀ xs ∈ samples,Variable.refuses [⟨"x",none⟩] xs = false) ∧
    (average faint).Filled ((average faint).lived [[[1],[1]]]) ∧
    (average faint).output ((average faint).lived [[[1],[1]]]) = [Binary32.nan,Binary32.nan] := by
  have none : Average.moments? ((average faint).lived [[[1],[1]]]) = none := by decide +kernel
  have filled : (average faint).Filled ((average faint).lived [[[1],[1]]]) := by
    intro fill
    rw [outputWith,Average.output,none]
    rfl
  exact ⟨ofSetting_faint,by decide +kernel,filled,filled.output⟩

end Statistic

end GlobeBins

import GlobeBins.Proofs.Geometry.Doubles
import GlobeBins.Proofs.Statistic.Pooling

namespace GlobeBins

section

variable {K : Type} [Field K]

/-- Mean of some numbers. -/
def mean (xs : List K) : K := xs.sum/xs.length

/-- Mean square of the distances from the mean. -/
def variance (xs : List K) : K := mean (xs.map fun x => (x-mean xs)*(x-mean xs))

/-- The weights of all parts. -/
def totalWeight (weight : Nat → K) (parts : List (List K)) : K :=
  (parts.map fun xs => weight xs.length).sum

/-- Means of the parts with a weight each, added up. -/
def weightedSum (weight : Nat → K) (parts : List (List K)) : K :=
  (parts.map fun xs => weight xs.length*mean xs).sum

/-- Means of the parts averaged with a weight each. -/
def weightedMean (weight : Nat → K) (parts : List (List K)) : K :=
  weightedSum weight parts/totalWeight weight parts

variable {xs ys : List K}

theorem mean_perm (perm : xs.Perm ys) : mean xs = mean ys := by
  rw [mean,perm.sum_eq,perm.length_eq,mean]

theorem sum_distances (xs : List K) (c : K) :
    (xs.map fun x => (x-c)*(x-c)).sum =
      (xs.map fun x => x*x).sum-2*c*xs.sum+xs.length*(c*c) := by
  induction xs with
  | nil => simp
  | cons x xs ih =>
    simp only [List.map_cons,List.sum_cons,List.length_cons,ih]
    push_cast
    ring

theorem totalWeight_map (weight : Nat → K) (f : K → K) (parts : List (List K)) :
    totalWeight weight (parts.map (·.map f)) = totalWeight weight parts := by
  simp only [totalWeight,List.map_map,Function.comp_def,List.length_map]

theorem totalWeight_cast (parts : List (List K)) :
    totalWeight Nat.cast parts = (parts.flatten.length : K) := by
  rw [totalWeight,List.length_flatten,Nat.cast_list_sum,List.map_map]
  rfl

/-- With one count for all parts their weight does not matter. -/
theorem weightedMean_of_equal {weight : Nat → K} {parts : List (List K)} {n : Nat}
    (same : ∀ xs ∈ parts,xs.length = n) (nonzero : weight n ≠ 0) :
    weightedMean weight parts = mean (parts.map mean) := by
  have sum : weightedSum weight parts = weight n*(parts.map mean).sum := by
    rw [weightedSum,← List.sum_map_mul_left]
    exact congrArg List.sum (List.map_congr_left fun xs mem => by rw [same xs mem])
  have total : totalWeight weight parts = parts.length*weight n := by
    have each : parts.map (fun xs => weight xs.length) = parts.map fun _ => weight n :=
      List.map_congr_left fun xs mem => by rw [same xs mem]
    rw [totalWeight,each,List.map_const',List.sum_replicate,nsmul_eq_mul]
  rw [weightedMean,sum,total,mean,List.length_map,mul_comm (parts.length : K),
    mul_div_mul_left _ _ nonzero]

variable [CharZero K]

theorem length_ne_zero (any : xs ≠ []) : (xs.length : K) ≠ 0 :=
  Nat.cast_ne_zero.mpr fun none => any (List.length_eq_zero_iff.mp none)

/-- No numbers have no mean, but then there is nothing to add either. -/
theorem length_mul_mean (xs : List K) : xs.length*mean xs = xs.sum := by
  by_cases any : xs = []
  · simp [any]
  · rw [mean,mul_div_cancel₀ _ (length_ne_zero any)]

theorem variance_eq (any : xs ≠ []) :
    variance xs = mean (xs.map fun x => x*x)-mean xs*mean xs := by
  have count : (xs.length : K) ≠ 0 := length_ne_zero any
  have sum := length_mul_mean xs
  rw [variance,mean,List.length_map,sum_distances,mean.eq_1 (xs.map _),List.length_map,← sum]
  field_simp
  ring

/-- Parts weighted by their counts give the mean of all. -/
theorem weightedMean_cast (parts : List (List K)) :
    weightedMean Nat.cast parts = mean parts.flatten := by
  rw [weightedMean,weightedSum,totalWeight_cast,mean,List.sum_flatten]
  simp only [length_mul_mean]

end

/-- Functions that exact numbers have beside their arithmetic. -/
class Analytic (K : Type) where
  sqrt : K → K
  exp : K → K
  log : K → K
  /-- A count to a power other than the first. -/
  power : Int → Binary64 → K

noncomputable instance Analytic.real : Analytic ℝ where
  sqrt := Real.sqrt
  exp := Real.exp
  log := Real.log
  power n x := Real.rpow n x.toReal

section

variable {K : Type} [Field K] [LinearOrder K] [Analytic K]

-- One half is written with the same proof about its literal wherever it is read.
attribute [local instance (high)] atLeastTwo_two

/-- Numbers without rounding. -/
@[reducible] def Arithmetic.exact : Arithmetic K where
  decideLt := inferInstance
  decideLe := inferInstance
  ofInt := Int.cast
  half := 1/2
  sqrt := Analytic.sqrt
  exp := Analytic.exp
  log := Analytic.log
  countPower n x := if x = 1 then n else Analytic.power n x

attribute [local instance] Arithmetic.exact

theorem Arithmetic.zero_exact : (Arithmetic.zero : K) = 0 := Int.cast_zero

variable {parts : List (List K)}

namespace Phases

variable {m : Phases K} {f : K → K} {weight : Nat → K}

/-- Values and their squares are added up. -/
theorem folded_exact (adds : ∀ x s q,m.addSample x [s,q] = [s+f x,q+f x*f x]) (xs : List K) :
    xs.foldl (fun v x => m.addSample x v) [Arithmetic.zero,Arithmetic.zero] =
      [(xs.map f).sum,(xs.map fun x => f x*f x).sum] := by
  rw [Arithmetic.zero_exact]
  induction xs using List.reverseRecOn with
  | nil => rfl
  | append_singleton xs x ih =>
    rw [List.foldl_append,ih,List.foldl_cons,List.foldl_nil,adds]
    simp

/-- Merging adds the means of a partition's values and of their squares, with a weight of its count. -/
def Averages (m : Phases K) (f : K → K) (weight : Nat → K) : Prop :=
  ∀ xs s q t,m.addPartition [s,q,t] xs =
    [s+weight xs.length*mean (xs.map f),q+weight xs.length*mean (xs.map fun x => f x*f x),
      t+weight xs.length]

theorem Averages.pooled (averages : m.Averages f weight) (parts : List (List K)) :
    m.pooled parts = [weightedSum weight (parts.map (·.map f)),
      weightedSum weight (parts.map (·.map fun x => f x*f x)),totalWeight weight parts] := by
  induction parts using List.reverseRecOn with
  | nil =>
    rw [Phases.pooled,List.foldl_nil,Arithmetic.zero_exact]
    rfl
  | append_singleton parts xs ih =>
    rw [pooled_append,ih,averages]
    simp [weightedSum,totalWeight]

end Phases

namespace Average

variable {weight : Binary64} {xs : List K}

theorem summary_exact (xs : List K) :
    (phases weight).summary xs = [mean xs,mean (xs.map fun x => x*x)] := by
  have folded := Phases.folded_exact (m := phases weight) (f := fun x => x) (fun _ _ _ => rfl) xs
  rw [Phases.summary,folded,List.map_id']
  by_cases any : xs = []
  · simp [any,phases,divideByCount,mean]
  · have count : (0 : Int) < xs.length := by
      have := List.length_pos_iff.mpr any
      omega
    simp only [phases,divideByCount,if_pos count,mean,Arithmetic.ofInt,Int.cast_natCast,
      List.length_map]

theorem averages : (phases weight : Phases K).Averages (fun x => x)
    fun n => Arithmetic.countPower n weight := by
  intro xs s q t
  rw [Phases.addPartition,summary_exact,List.map_id']
  simp only [phases,addCell,mul_comm]

/-- Moments are the means of the samples and of their squares. -/
theorem moments_weighted (any : 0 < totalWeight (fun n => Arithmetic.countPower n weight) parts) :
    moments? ((phases weight).pooled parts) =
      let mean := weightedMean (fun n => Arithmetic.countPower n weight) parts
      some (mean,weightedMean (fun n => Arithmetic.countPower n weight)
        (parts.map (·.map fun x => x*x))-mean*mean) := by
  have positive : Arithmetic.zero < totalWeight (fun n => Arithmetic.countPower n weight) parts := by
    rw [Arithmetic.zero_exact]
    exact any
  rw [averages.pooled,moments?,if_pos positive]
  simp only [weightedMean,totalWeight_map,List.map_id']

variable [IsStrictOrderedRing K]

theorem variance_nonneg (xs : List K) : 0 ≤ variance xs := by
  have squares : 0 ≤ (xs.map fun x => (x-mean xs)*(x-mean xs)).sum :=
    List.sum_nonneg (by simp [mul_self_nonneg])
  rw [variance,mean,List.length_map]
  exact div_nonneg squares (Nat.cast_nonneg _)

/-- With the first power of the counts for weights, some numbers give their mean and their variance,
divided in any way among partitions that come in any order. -/
theorem pooled_moments (a : Average) (first : a.weight = 1) (any : xs ≠ [])
    (divided : parts.flatten.Perm xs) :
    moments? ((phases a.weight).pooled parts) = some (mean xs,variance xs) ∧
      0 ≤ variance xs ∧ Arithmetic.clampVariance (variance xs) = variance xs ∧
      ∀ fill,output fill ((phases a.weight).pooled parts) =
        [mean xs,Analytic.sqrt (variance xs)] := by
  have count : (fun n : Nat => (Arithmetic.countPower n a.weight : K)) = Nat.cast := by
    funext n
    simp only [Arithmetic.countPower,if_pos first,Int.cast_natCast]
  have total : 0 < totalWeight (fun n => Arithmetic.countPower n a.weight) parts := by
    rw [count,totalWeight_cast,divided.length_eq]
    exact Nat.cast_pos.mpr (List.length_pos_iff.mpr any)
  have moments : moments? ((phases a.weight).pooled parts) = some (mean xs,variance xs) := by
    rw [moments_weighted total,count,weightedMean_cast,weightedMean_cast,← List.map_flatten,
      mean_perm divided,mean_perm (divided.map _),variance_eq any]
  have clamped : Arithmetic.clampVariance (variance xs) = variance xs := by
    rw [Arithmetic.clampVariance,Arithmetic.zero_exact]
    split_ifs with positive
    · rfl
    · exact le_antisymm (variance_nonneg xs) (not_lt.mp positive)
  refine ⟨moments,variance_nonneg xs,clamped,fun fill => ?_⟩
  rw [output,moments]
  simp only [clamped,Arithmetic.sqrt]

/-- Five samples in two partitions, which have them in another order. -/
theorem pooled_moments_two :
    (Average.mk "x" 0 1 Binary32.nan).weight = 1 ∧ [1,2,3,1,3] ≠ ([] : List ℝ) ∧
      [[3,1],[3,1,2]].flatten.Perm [(1 : ℝ),2,3,1,3] ∧
      moments? ((phases 1).pooled [[(3 : ℝ),1],[3,1,2]]) = some (2,4/5) := by
  have divided : [[3,1],[3,1,2]].flatten.Perm [(1 : ℝ),2,3,1,3] :=
    (List.reverse_perm _).symm.trans (List.Perm.swap 1 2 [3,1,3])
  have moments := (pooled_moments ⟨"x",0,1,Binary32.nan⟩ rfl (by simp) divided).1
  refine ⟨rfl,by simp,divided,moments.trans ?_⟩
  norm_num [variance,mean]

end Average

end

end GlobeBins

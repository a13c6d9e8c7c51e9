import GlobeBins.Proofs.Statistic.Averages

namespace GlobeBins

namespace LogAverage

attribute [local instance] Arithmetic.exact
attribute [local instance (high)] DivInvMonoid.toDiv

variable {parts : List (List ℝ)} {xs ys : List ℝ}

/-- Logarithms of all samples. -/
noncomputable def logs (parts : List (List ℝ)) : List (List ℝ) := parts.map (·.map Real.log)

noncomputable def squaredLogs (parts : List (List ℝ)) : List (List ℝ) :=
  parts.map (·.map fun x => Real.log x*Real.log x)

/-- The weight that a count has. -/
noncomputable def rootWeight (n : Nat) : ℝ := √n

theorem sum_div_root (ys : List ℝ) : ys.sum/√ys.length = rootWeight ys.length*mean ys := by
  rw [rootWeight,mean,← mul_div_assoc,mul_comm,mul_div_assoc,Real.sqrt_div_self',mul_one_div]

theorem summary_exact (xs : List ℝ) : phases.summary xs =
    [rootWeight xs.length*mean (xs.map Real.log),
      rootWeight xs.length*mean (xs.map fun x => Real.log x*Real.log x)] := by
  have folded := Phases.folded_exact (m := (phases : Phases ℝ)) (f := Real.log)
    (fun _ _ _ => rfl) xs
  rw [Phases.summary,folded]
  by_cases any : xs = []
  · simp [any,phases,divideByRoot,mean]
  · have count : (0 : Int) < xs.length := by
      have := List.length_pos_iff.mpr any
      omega
    have first := sum_div_root (xs.map Real.log)
    have second := sum_div_root (xs.map fun x => Real.log x*Real.log x)
    rw [List.length_map] at first second
    rw [← first,← second]
    simp only [phases,divideByRoot,if_pos count,Arithmetic.ofInt,Arithmetic.sqrt,Analytic.sqrt,
      Int.cast_natCast]

theorem averages : (phases : Phases ℝ).Averages Real.log rootWeight := by
  intro xs s q t
  rw [Phases.addPartition,summary_exact]
  simp only [phases,addCell,rootWeight,Arithmetic.ofInt,Arithmetic.sqrt,Analytic.sqrt,
    max_eq_left (Int.natCast_nonneg _),Int.cast_natCast]

theorem totalWeight_pos (any : parts.flatten ≠ []) : 0 < totalWeight rootWeight parts := by
  obtain ⟨x,mem⟩ := List.exists_mem_of_ne_nil _ any
  obtain ⟨xs,part,own⟩ := List.mem_flatten.mp mem
  have count : 0 < rootWeight xs.length :=
    Real.sqrt_pos.mpr (Nat.cast_pos.mpr (List.length_pos_of_mem own))
  have weights : ∀ w ∈ parts.map fun xs => rootWeight xs.length,0 ≤ w := by
    simp [rootWeight]
  exact count.trans_le (List.single_le_sum weights _ (List.mem_map_of_mem part))

/-- The moments are the means of the partitions, weighted with the roots of their counts. -/
theorem logMoments_weighted (any : parts.flatten ≠ []) :
    logMoments? (phases.pooled parts) =
      some (weightedMean rootWeight (logs parts),weightedMean rootWeight (squaredLogs parts)) := by
  have positive : Arithmetic.zero < totalWeight rootWeight parts := by
    rw [Arithmetic.zero_exact]
    exact totalWeight_pos any
  rw [averages.pooled,logMoments?,if_pos positive]
  simp only [weightedMean,logs,squaredLogs,totalWeight_map]

/-- Partitions of one count give the moments of all samples. -/
theorem weightedMean_even {n : Nat} (pos : 0 < n) (same : ∀ xs ∈ parts,xs.length = n) :
    weightedMean rootWeight parts = mean parts.flatten := by
  have root : rootWeight n ≠ 0 := (Real.sqrt_pos.mpr (Nat.cast_pos.mpr pos)).ne'
  have count : (n : ℝ) ≠ 0 := Nat.cast_ne_zero.mpr pos.ne'
  rw [weightedMean_of_equal same root,← weightedMean_of_equal same count,weightedMean_cast]

/-- Two partitions give the mean of all numbers only if they have one count or one mean. -/
theorem weightedMean_pair (hx : xs ≠ []) (hy : ys ≠ []) :
    weightedMean rootWeight [xs,ys] = mean (xs++ys) ↔
      xs.length = ys.length ∨ mean xs = mean ys := by
  have all : mean (xs++ys) = weightedMean Nat.cast [xs,ys] := by
    rw [weightedMean_cast,List.flatten_cons,List.flatten_singleton]
  have square (zs : List ℝ) : (zs.length : ℝ) = rootWeight zs.length*rootWeight zs.length :=
    (Real.mul_self_sqrt (Nat.cast_nonneg _)).symm
  have root {zs : List ℝ} (any : zs ≠ []) : 0 < rootWeight zs.length :=
    Real.sqrt_pos.mpr (Nat.cast_pos.mpr (List.length_pos_iff.mpr any))
  have counts : xs.length = ys.length ↔ rootWeight xs.length = rootWeight ys.length := by
    rw [rootWeight,rootWeight,Real.sqrt_inj (Nat.cast_nonneg _) (Nat.cast_nonneg _),Nat.cast_inj]
  rw [all,counts]
  simp only [weightedMean,weightedSum,totalWeight,List.map_cons,List.map_nil,List.sum_cons,
    List.sum_nil,add_zero,square]
  have first := root hx
  have second := root hy
  generalize rootWeight xs.length = r,rootWeight ys.length = t at first second ⊢
  generalize mean xs = a,mean ys = b
  have cross : (r*a+t*b)*(r*r+t*t)-(r*r*a+t*t*b)*(r+t) = r*t*((r-t)*(b-a)) := by ring
  rw [div_eq_div_iff (by positivity) (by positivity),← sub_eq_zero,cross,
    mul_eq_zero_iff_left (mul_pos first second).ne',mul_eq_zero,sub_eq_zero,sub_eq_zero,
    eq_comm (a := b)]

/-- What the moments of the logarithms are: of each partition those of its own samples, weighted with the
root of its count. Partitions of one count give the moments of all samples together; two of different
counts do not, unless they have the same mean. -/
theorem pooled_rooted (any : parts.flatten ≠ []) :
    logMoments? (phases.pooled parts) =
        some (weightedMean rootWeight (logs parts),weightedMean rootWeight (squaredLogs parts)) ∧
      (∀ n,(∀ xs ∈ parts,xs.length = n) → logMoments? (phases.pooled parts) =
        some (mean (parts.flatten.map Real.log),
          mean (parts.flatten.map fun x => Real.log x*Real.log x))) ∧
      ∀ xs ys,parts = [xs,ys] → xs ≠ [] → ys ≠ [] →
        (weightedMean rootWeight (logs parts) = mean (parts.flatten.map Real.log) ↔
          xs.length = ys.length ∨ mean (xs.map Real.log) = mean (ys.map Real.log)) := by
  have moments := logMoments_weighted any
  refine ⟨moments,fun n same => ?_,?_⟩
  · have pos : 0 < n := by
      obtain ⟨x,mem⟩ := List.exists_mem_of_ne_nil _ any
      obtain ⟨xs,part,own⟩ := List.mem_flatten.mp mem
      rw [← same xs part]
      exact List.length_pos_of_mem own
    have even (f : ℝ → ℝ) :
        weightedMean rootWeight (parts.map (·.map f)) = mean (parts.flatten.map f) := by
      rw [List.map_flatten]
      apply weightedMean_even pos
      simpa using same
    rw [moments,logs,squaredLogs,even,even]
  · rintro xs ys rfl hx hy
    have some {zs : List ℝ} (any : zs ≠ []) : zs.map Real.log ≠ [] := by simpa using any
    have pair := weightedMean_pair (some hx) (some hy)
    rw [List.length_map,List.length_map,← List.map_append] at pair
    rw [List.flatten_cons,List.flatten_singleton]
    exact pair

/-- Two partitions of two samples. -/
theorem pooled_rooted_even : [[2,3],[5,7]].flatten ≠ ([] : List ℝ) ∧
    (∀ xs ∈ ([[2,3],[5,7]] : List (List ℝ)),xs.length = 2) ∧
    logMoments? (phases.pooled [[(2 : ℝ),3],[5,7]]) =
      some (mean ([2,3,5,7].map Real.log),mean ([2,3,5,7].map fun x => Real.log x*Real.log x)) := by
  have any : [[2,3],[5,7]].flatten ≠ ([] : List ℝ) := by simp
  have same : ∀ xs ∈ ([[2,3],[5,7]] : List (List ℝ)),xs.length = 2 := by simp
  exact ⟨any,same,(pooled_rooted any).2.1 2 same⟩

/-- One sample of 2 and four of 1 in two partitions: a third of the logarithm of 2 comes of it, though
the mean of all five is a fifth. -/
theorem uneven_unpooled : (∀ xs ∈ [[2],[1,1,1,1]],xs ≠ [] ∧ ∀ x ∈ xs,(0 : ℝ) < x) ∧
    logMoments? (phases.pooled [[2],[1,1,1,1]]) =
      some (Real.log 2/3,Real.log 2*Real.log 2/3) ∧
    mean (([[2],[1,1,1,1]] : List (List ℝ)).flatten.map Real.log) = Real.log 2/5 ∧
    Real.log 2/3 ≠ Real.log 2/5 := by
  have four : √(4 : ℝ) = 2 := by
    rw [show (4 : ℝ) = 2^2 by norm_num,Real.sqrt_sq (by norm_num)]
  refine ⟨by simp,?_,by simp [mean],?_⟩
  · rw [logMoments_weighted (by simp)]
    simp [weightedMean,weightedSum,totalWeight,logs,squaredLogs,rootWeight,mean,four]
    norm_num
  · have positive : 0 < Real.log 2 := Real.log_pos (by norm_num)
    intro same
    linarith

end LogAverage

end GlobeBins

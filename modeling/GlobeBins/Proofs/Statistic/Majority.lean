import GlobeBins.Proofs.Ensemble.Apart
import GlobeBins.Proofs.Numeric.Positive

namespace GlobeBins

namespace LandCover

/-- No count is greater than that of this class. -/
def Leading (counts : List Binary32) (k : Nat) : Prop :=
  ∃ count,counts[k]? = some count ∧ ∀ x ∈ counts,x ≤ count

/-- The first greatest of these counts is at this position. -/
structure FirstGreatest (counts : List Binary32) (best : Binary32) (position : Nat) : Prop where
  found : counts[position]? = some best
  greatest : ∀ x ∈ counts,x ≤ best
  first : ∀ k < position,∀ x,counts[k]? = some x → x < best

/-- What is written for some counts. -/
structure Written (fill : Binary32) (counts out : List Binary32) : Prop where
  some : 0 < total counts → ∃ c,IsLeast {k | Leading counts k} c ∧
    (counts.length ≤ 2^24 → (Binary32.ofNat c).Is c) ∧
    out = Binary32.ofNat c::counts.map (·/total counts)
  none : ¬0 < total counts → out = fill::List.replicate counts.length 0

variable {counts rest : List Binary32} {best c : Binary32} {position : Nat}

theorem FirstGreatest.inside (h : FirstGreatest counts best position) :
    position < counts.length ∧ best ∈ counts := by
  obtain ⟨inside,same⟩ := List.getElem?_eq_some_iff.mp h.found
  exact ⟨inside,same ▸ List.getElem_mem inside⟩

/-- A count is kept unless the next one is greater. -/
theorem FirstGreatest.keep (h : FirstGreatest counts best position) (below : c ≤ best) :
    FirstGreatest (counts++[c]) best position where
  found := by rw [List.getElem?_append_left h.inside.1,h.found]
  greatest := List.forall_mem_append.mpr ⟨h.greatest,by simpa using below⟩
  first := by
    intro k low x
    rw [List.getElem?_append_left (low.trans h.inside.1)]
    exact h.first k low x

/-- A greater count is first where it stands, behind all others. -/
theorem FirstGreatest.replace (h : FirstGreatest counts best position) (above : best < c) :
    FirstGreatest (counts++[c]) c counts.length := by
  have less : ∀ x ∈ counts,x < c := fun x mem =>
    Binary32.lt_of_le_of_lt (h.greatest x mem) above
  have own : c ≤ c := Binary32.le_refl (Binary32.not_isNaN_of_lt above).2
  constructor
  case found => exact List.getElem?_concat_length
  case greatest =>
    refine List.forall_mem_append.mpr ⟨fun x mem => ?_,by simpa using own⟩
    exact Binary32.le_of_lt (less x mem)
  case first =>
    intro k low x at_k
    rw [List.getElem?_append_left low] at at_k
    exact less x (List.mem_of_getElem? at_k)

/-- The loop goes on behind the counts it has seen. -/
theorem FirstGreatest.run (h : FirstGreatest counts best position)
    (numbers : ∀ x ∈ rest,x.isNaN = false) : ∃ greatest,
    FirstGreatest (counts++rest) greatest (majorityFrom best position counts.length rest) := by
  induction rest generalizing counts best position with
  | nil =>
    rw [List.append_nil]
    exact ⟨best,h⟩
  | cons c rest ih =>
    obtain ⟨number,others⟩ := List.forall_mem_cons.mp numbers
    have length : (counts++[c]).length = counts.length+1 := by simp
    rw [majorityFrom,← length,← List.singleton_append,← List.append_assoc]
    split_ifs with above
    · exact ih (h.replace above) others
    · have top := (Binary32.not_isNaN_of_le (h.greatest best h.inside.2)).1
      exact ih (h.keep (Binary32.le_of_not_lt top number above)) others

/-- The first greatest count leads, and nothing in front of it does. -/
theorem FirstGreatest.isLeast (h : FirstGreatest counts best position) :
    IsLeast {k | Leading counts k} position := by
  refine ⟨⟨best,h.found,h.greatest⟩,fun k leading => ?_⟩
  obtain ⟨count,at_k,most⟩ := leading
  by_contra low
  have above : best ≤ count := most best h.inside.2
  exact Binary32.not_lt_of_le above (h.first k (not_le.mp low) count at_k)

theorem majority_isLeast (some : counts ≠ []) (numbers : ∀ x ∈ counts,x.isNaN = false) :
    IsLeast {k | Leading counts k} (majority counts) := by
  cases counts with
  | nil => exact absurd rfl some
  | cons c rest =>
    obtain ⟨number,others⟩ := List.forall_mem_cons.mp numbers
    have start : FirstGreatest [c] c 0 := by
      refine ⟨rfl,?_,by simp⟩
      simpa using Binary32.le_refl number
    obtain ⟨_,first⟩ := start.run others
    exact first.isLeast

/-- Class numbers are exact as singles. -/
theorem majority_exact (some : counts ≠ []) (numbers : ∀ x ∈ counts,x.isNaN = false)
    (few : counts.length ≤ 2^24) : (Binary32.ofNat (majority counts)).Is (majority counts) := by
  obtain ⟨count,found,_⟩ := (majority_isLeast some numbers).1
  have inside := (List.getElem?_eq_some_iff.mp found).1
  exact Binary32.is_ofNat_of_le (inside.le.trans few)

theorem output_written (fill : Binary32) (some : counts ≠ []) (nonneg : ∀ x ∈ counts,0 ≤ x) :
    Written fill counts (output fill counts) := by
  have numbers : ∀ x ∈ counts,x.isNaN = false :=
    fun x mem => (Binary32.zero_le_iff.mp (nonneg x mem)).1
  have sum : 0 ≤ total counts := (Binary32.zero_lt_sum nonneg).1
  have number := (Binary32.zero_le_iff.mp sum).1
  have sign : total counts ≤ 0 ↔ ¬0 < total counts :=
    ⟨Binary32.not_lt_of_le,Binary32.le_of_not_lt rfl number⟩
  constructor
  case some =>
    intro positive
    refine ⟨majority counts,majority_isLeast some numbers,majority_exact some numbers,?_⟩
    rw [output,if_neg (fun low => sign.mp low positive)]
  case none =>
    intro zero
    rw [output,if_pos (sign.mpr zero),List.map_const']

/-- Of counts that are not negative, the least class of the greatest count is written, and the share of
each class; if they do not come to more than nothing, the fill value, and no shares. In an ensemble too. -/
theorem majority_written (some : counts ≠ []) (nonneg : ∀ x ∈ counts,0 ≤ x) :
    (∀ fill,Written fill counts (output fill counts)) ∧
    ∀ {e : Ensemble} {k : Nat} {l : LandCover} {p : Ensemble.Place} {b : TemporalBin Binary32}
      {out : List Binary32},e.At k (.landCover l) p → b.features.length = e.temporalCount →
      p.temporal.of b.features = counts → out.length = e.outputCount →
      counts.length = l.classes ∧
        Written Binary32.nan counts (p.output.of (e.writeOutput b out)) := by
  refine ⟨fun fill => output_written fill some nonneg,?_⟩
  intro e k l p b out here wide counted room
  have slice := Ensemble.of_length Statistic.temporalNames_length wide here.statistic here.temporal
  rw [counted] at slice
  rw [here.output_of wide room,counted]
  exact ⟨slice,output_written Binary32.nan some nonneg⟩

/-- Classes 1 and 2 are seen equally often. -/
theorem majority_written_tie : ∃ (e : Ensemble) (p : Ensemble.Place) (b : TemporalBin Binary32),
    e.At 0 (.landCover ⟨"x",0,3,by decide⟩) p ∧ p.temporal.of b.features = [1,3,3] ∧
    0 < total [1,3,3] ∧ IsLeast {k | Leading [1,3,3] k} 1 ∧
    p.output.of (e.writeOutput b e.fillVector) = [1,1/7,3/7,3/7] := by
  let e : Ensemble := ⟨[.landCover ⟨"x",0,3,by decide⟩]⟩
  let b : TemporalBin Binary32 := ⟨0,9,2,[1,3,3]⟩
  have here : e.At 0 (.landCover ⟨"x",0,3,by decide⟩) ⟨⟨0,3⟩,⟨0,3⟩,⟨0,4⟩⟩ := ⟨rfl,rfl,rfl,rfl⟩
  have positive : 0 < total [1,3,3] := by decide +kernel
  have some : ([1,3,3] : List Binary32) ≠ [] := List.cons_ne_nil _ _
  have nonneg : ∀ x ∈ ([1,3,3] : List Binary32),0 ≤ x := by decide
  obtain ⟨_,shared⟩ := majority_written some nonneg
  obtain ⟨_,written⟩ := shared (b := b) here rfl rfl e.fillVector_length
  obtain ⟨c,least,_,out⟩ := written.some positive
  have low : c ≤ 1 := least.2 ⟨3,rfl,by decide⟩
  have high : c ≠ 0 := by
    rintro rfl
    obtain ⟨count,found,greatest⟩ := least.1
    cases found
    exact absurd (greatest 3 (by decide)) (by decide)
  obtain rfl : c = 1 := by omega
  exact ⟨e,_,b,here,rfl,positive,least,out.trans (by decide +kernel)⟩

end LandCover

end GlobeBins

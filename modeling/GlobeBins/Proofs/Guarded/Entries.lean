import GlobeBins.Proofs.Ensemble.Tables
import GlobeBins.Proofs.Guarded.Bins

namespace GlobeBins

-- Zero as the core library has it.
attribute [local instance (high)] Zero.ofOfNat0

namespace Guarded

section

variable {α : Type}

/-- Stores entries one after another, from a position on. -/
def storeFrom (i : Nat) : List α → List α → Except Stop (List α)
  | [],v => return v
  | x::xs,v => do storeFrom (i+1) xs (← store v i x)

/-- The entries in a span. -/
def slice (r : Span) (v : List α) : Except Stop (List α) :=
  if r.start ≤ r.stop ∧ r.stop ≤ v.length then .ok (r.of v) else .error .index

/-- Lets a step work on the entries in a span, in place. -/
def within (r : Span) (step : List α → Except Stop (List α)) (v : List α) :
    Except Stop (List α) := do
  return r.put (← step (← slice r v)) v

end

/-- Stores the output of a vector, entry by entry. -/
def storeOutput (v out : List Binary32) : Statistic → Except Stop (List Binary32)
  | .average s => do
    let weight ← item v 2
    if Arithmetic.zero < weight then
      let mean := (← item v 0)/weight
      let variance := (← item v 1)/weight-mean*mean
      let out ← store out 0 mean
      store out 1 (Arithmetic.clampVariance variance).sqrt
    else
      let out ← store out 0 s.fill
      store out 1 s.fill
  | .logAverage _ => do
    let weight ← item v 2
    if Arithmetic.zero < weight then
      let m := (← item v 0)/weight
      let variance := Arithmetic.clampVariance ((← item v 1)/weight-m*m)
      let mean := (m+Binary32.half*variance).exp
      let out ← store out 0 mean
      let out ← store out 1 (mean*(variance.exp-Binary32.ofInt 1).sqrt)
      let out ← store out 2 m.exp
      store out 3 (m-variance).exp
    else storeFrom 0 (List.replicate 4 Binary32.nan) out
  | .extremes s => do
    let least ← item v 0
    let greatest ← item v 1
    if least ≤ greatest then
      let out ← store out 0 least
      store out 1 greatest
    else
      let out ← store out 0 s.fill
      store out 1 s.fill
  | .total _ | .burnedDay _ => do
    let out ← store out 0 (← item v 0)
    store out 1 (← item v 1)
  | .landCover s => do
    let counts ← front v s.classes
    let sum := LandCover.total counts
    if sum ≤ 0 then
      let out ← store out 0 Binary32.nan
      storeFrom 1 (List.replicate s.classes 0) out
    else
      let majority ← majorityFrom counts 0 0 counts
      let out ← store out 0 (Binary32.ofNat majority)
      storeFrom 1 (counts.map (·/sum)) out

section

variable (e : Ensemble)

/-- Stores neutral entries in the slices that are laid out by names. -/
def reset (names : Statistic → List String) (neutral : Statistic → List Binary32)
    (v : List Binary32) : Except Stop (List Binary32) :=
  (e.statistics.zip (e.spans names)).foldlM
    (fun v p => within p.2 (storeFrom 0 (neutral p.1)) v) v

/-- Stores the output of a bin in the slices of a vector. -/
def storeOutputs (b : TemporalBin Binary32) (out : List Binary32) :
    Except Stop (List Binary32) :=
  let places := (e.spans Statistic.temporalNames).zip (e.spans Statistic.outputNames)
  (e.statistics.zip places).foldlM (fun out p =>
    within p.2.2 (fun own => do storeOutput (← slice p.2.1 b.features) own p.1) out) out

end

section

variable {α : Type}

theorem storeFrom_eq {i : Nat} {xs v : List α} (fits : i+xs.length = v.length) :
    storeFrom i xs v = .ok (v.take i++xs) := by
  induction xs generalizing i v with
  | nil =>
    rw [List.length_nil,Nat.add_zero] at fits
    rw [storeFrom,fits,List.take_length,List.append_nil]
    rfl
  | cons x xs ih =>
    rw [List.length_cons] at fits
    have inside : i < v.length := by omega
    have rest : i+1+xs.length = (v.set i x).length := by
      rw [List.length_set]
      omega
    have stored : (v.set i x).take (i+1) = v.take i++[x] := by
      rw [List.take_add_one,List.getElem?_set_self inside,List.take_set_of_le (Nat.le_refl i)]
      rfl
    rw [storeFrom,store_eq inside,ok_bind,ih rest,stored,List.append_assoc]
    rfl

/-- A step stores all entries of a slice, whatever they were. -/
def Fills (step : List α → Except Stop (List α)) (entries : List α) : Prop :=
  ∀ v,v.length = entries.length → step v = .ok entries

theorem storeFrom_fills (xs : List α) : Fills (storeFrom 0 xs) xs := by
  intro v fits
  rw [storeFrom_eq (by omega)]
  rfl

theorem slice_append {u v : List α} {w : Nat} (inside : w ≤ v.length) :
    slice ⟨u.length,u.length+w⟩ (u++v) = .ok (v.take w) := by
  have range : u.length ≤ u.length+w ∧ u.length+w ≤ (u++v).length := by
    rw [List.length_append]
    omega
  rw [slice,if_pos range,Span.of,Nat.add_sub_cancel_left,List.drop_left]

theorem within_fills {step : List α → Except Stop (List α)} {entries u v : List α}
    (fills : Fills step entries) (room : entries.length ≤ v.length) :
    within ⟨u.length,u.length+entries.length⟩ step (u++v) =
      .ok ((u++entries)++v.drop entries.length) := by
  have own : (v.take entries.length).length = entries.length := List.length_take_of_le room
  rw [within,slice_append room,ok_bind,fills _ own,ok_bind,Span.put,List.take_left,
    ← List.drop_drop,List.drop_left,List.append_assoc]
  rfl

end

section

variable {v : List Binary32}

/-- Every branch of a statistic stores its whole output. -/
theorem storeOutput_fills (s : Statistic) (width : v.length = s.temporalWidth) :
    Fills (fun out => storeOutput v out s) (s.output v) := by
  intro out room
  rw [s.output_length width] at room
  cases s with
  | average s =>
    obtain ⟨x,y,z,rfl⟩ := List.length_eq_three.mp width
    obtain ⟨a,b,rfl⟩ := List.length_eq_two.mp room
    simp only [storeOutput,item,List.getElem?_cons_zero,List.getElem?_cons_succ,ok_bind,
      Statistic.output,Average.output,Average.moments?]
    split <;> rfl
  | logAverage s =>
    obtain ⟨x,y,z,rfl⟩ := List.length_eq_three.mp width
    obtain ⟨a,b,c,d,rfl⟩ := List.length_eq_four.mp room
    simp only [storeOutput,item,List.getElem?_cons_zero,List.getElem?_cons_succ,ok_bind,
      Statistic.output,LogAverage.output,LogAverage.logMoments?]
    split <;> rfl
  | extremes s =>
    obtain ⟨x,y,rfl⟩ := List.length_eq_two.mp width
    obtain ⟨a,b,rfl⟩ := List.length_eq_two.mp room
    simp only [storeOutput,item,List.getElem?_cons_zero,List.getElem?_cons_succ,ok_bind,
      Statistic.output,Extremes.output]
    split <;> rfl
  | total s =>
    obtain ⟨x,y,rfl⟩ := List.length_eq_two.mp width
    obtain ⟨a,b,rfl⟩ := List.length_eq_two.mp room
    rfl
  | burnedDay s =>
    obtain ⟨x,y,rfl⟩ := List.length_eq_two.mp width
    obtain ⟨a,b,rfl⟩ := List.length_eq_two.mp room
    rfl
  | landCover s =>
    have whole : v.length = s.classes := width
    have some : v ≠ [] := by
      have range := s.classes_range
      apply List.ne_nil_of_length_pos
      omega
    simp only [storeOutput,front_eq whole.ge,List.take_of_length_le whole.le,majority_eq some,ok_bind,
      Statistic.output,LandCover.output]
    split
    · rw [List.map_const',whole]
      refine storeFrom_fills (_::_) out ?_
      rw [List.length_cons,List.length_replicate]
      exact room
    · refine storeFrom_fills (_::_) out ?_
      rw [List.length_cons,List.length_map,whole]
      exact room

end

section

variable {names : Statistic → List String} {width : Statistic → Nat}
  {neutral : Statistic → List Binary32} (lengths : ∀ s,(names s).length = width s)
  (fits : ∀ s,(neutral s).length = width s)

include fits in
/-- Slice after slice is filled, behind those that are filled already. -/
theorem reset_row {ss : List Statistic} {u v : List Binary32}
    (room : v.length = (ss.map width).sum) :
    (ss.zip (Span.row u.length (ss.map width))).foldlM
      (fun v p => within p.2 (storeFrom 0 (neutral p.1)) v) (u++v) =
        .ok (u++ss.flatMap neutral) := by
  induction ss generalizing u v with
  | nil =>
    obtain rfl := List.length_eq_zero_iff.mp room
    rfl
  | cons s ss ih =>
    simp only [List.map_cons,List.sum_cons,← fits s] at room
    have filled := within_fills (u := u) (storeFrom_fills (neutral s)) (v := v) (by omega)
    have rest : (v.drop (neutral s).length).length = (ss.map width).sum := by
      rw [List.length_drop]
      omega
    have next := ih (u := u++neutral s) rest
    rw [List.length_append] at next
    rw [List.map_cons,Span.row,← fits s,List.zip_cons_cons,List.foldlM_cons,filled,ok_bind,next,
      List.append_assoc,List.flatMap_cons]

include lengths fits in
theorem reset_eq {e : Ensemble} {v : List Binary32}
    (room : v.length = (e.statistics.map width).sum) :
    reset e names neutral v = .ok (e.statistics.flatMap neutral) := by
  rw [reset,Ensemble.spans_eq lengths]
  exact reset_row fits (u := []) room

end

/-- As `reset_row`; slices of the bin that are read already are behind as well. -/
theorem storeOutputs_row {ss : List Statistic} {p r u out : List Binary32}
    (reads : r.length = (ss.map Statistic.temporalWidth).sum)
    (room : out.length = (ss.map Statistic.outputWidth).sum) :
    (ss.zip ((Span.row p.length (ss.map Statistic.temporalWidth)).zip
      (Span.row u.length (ss.map Statistic.outputWidth)))).foldlM (fun out q =>
        within q.2.2 (fun own => do storeOutput (← slice q.2.1 (p++r)) own q.1) out) (u++out) =
      .ok (u++Ensemble.outputs ss r) := by
  induction ss generalizing p r u out with
  | nil =>
    obtain rfl := List.length_eq_zero_iff.mp room
    rfl
  | cons s ss ih =>
    simp only [List.map_cons,List.sum_cons] at reads room
    have width : (r.take s.temporalWidth).length = s.temporalWidth :=
      List.length_take_of_le (by omega)
    have entries : (s.output (r.take s.temporalWidth)).length = s.outputWidth :=
      s.output_length width
    have read : slice ⟨p.length,p.length+s.temporalWidth⟩ (p++r) = .ok (r.take s.temporalWidth) :=
      slice_append (by omega)
    have filled := within_fills (u := u) (v := out) (storeOutput_fills s width) (by omega)
    have unread : (r.drop s.temporalWidth).length = (ss.map Statistic.temporalWidth).sum := by
      rw [List.length_drop]
      omega
    have rest : (out.drop s.outputWidth).length = (ss.map Statistic.outputWidth).sum := by
      rw [List.length_drop]
      omega
    have next := ih (p := p++r.take s.temporalWidth)
      (u := u++s.output (r.take s.temporalWidth)) unread rest
    rw [List.length_append,List.length_append,width,entries,List.append_assoc p,
      List.take_append_drop] at next
    rw [entries] at filled
    simp only [List.map_cons,Span.row,List.zip_cons_cons,List.foldlM_cons,read,ok_bind,filled]
    rw [next,List.append_assoc,Ensemble.outputs]

theorem storeOutputs_eq {e : Ensemble} {b : TemporalBin Binary32} {out : List Binary32}
    (width : b.features.length = e.temporalCount) (room : out.length = e.outputCount) :
    storeOutputs e b out = .ok (Ensemble.outputs e.statistics b.features) := by
  rw [storeOutputs,Ensemble.spans_eq Statistic.temporalNames_length,
    Ensemble.spans_eq Statistic.outputNames_length]
  exact storeOutputs_row (p := []) (u := []) width room

end Guarded

end GlobeBins

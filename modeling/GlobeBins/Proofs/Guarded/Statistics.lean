import GlobeBins.Proofs.Ensemble.Widths
import GlobeBins.Proofs.Guarded.Access
import GlobeBins.Proofs.Statistic.Reads

namespace GlobeBins

namespace Guarded

/-- Replaces day and confidence as `BurnedDay.fold` does. -/
def fold (s : BurnedDay) (day confidence : Binary32) (v : List Binary32) :
    Except Stop (List Binary32) := do
  let current ← item v 0
  if s.isBurned day then
    if !s.isBurned current || day < current then
      store (← store v 0 day) 1 confidence
    else return v
  else if day < 0 && !s.isBurned current && day < current then
    store (← store v 0 day) 1 0
  else return v

def addSamples (samples v : List Binary32) : Statistic → Except Stop (List Binary32)
  | .average s => do
    let x ← item samples s.source
    update (← update v 0 (·+x)) 1 (·+x*x)
  | .logAverage s => do
    let l := (← item samples s.source).log
    update (← update v 0 (·+l)) 1 (·+l*l)
  | .extremes s => do
    let x ← item samples s.source
    update (← update v 0 (·.min x)) 1 (·.max x)
  | .total s => do
    let x ← item samples s.source
    update v 0 (·+x)
  | .burnedDay s => do
    let day ← item samples s.source
    match s.confidence with
    | none => fold s day 1 v
    | some i => fold s day (← item samples i) v
  | .landCover s => do
    match LandCover.classOf? s.classes (← item samples s.source) with
    | some c => update v c (·+1)
    | none => return v

def finishSpatial (count : Int) (v : List Binary32) : Statistic → Except Stop (List Binary32)
  | .average _ =>
    if 0 < count then do
      let n := Binary32.ofInt count
      update (← update v 0 (·/n)) 1 (·/n)
    else return v
  | .logAverage _ =>
    if 0 < count then do
      let n := (Binary32.ofInt count).sqrt
      update (← update v 0 (·/n)) 1 (·/n)
    else return v
  | _ => return v

def addCell (cell : List Binary32) (count : Int) (v : List Binary32) :
    Statistic → Except Stop (List Binary32)
  | .average s => do
    let w : Binary32 := Arithmetic.countPower count s.weight
    let a ← item cell 0
    let b ← item cell 1
    update (← update (← update v 0 (·+a*w)) 1 (·+b*w)) 2 (·+w)
  | .logAverage _ => do
    let a ← item cell 0
    let b ← item cell 1
    let root := (Binary32.ofInt (max count 0)).sqrt
    update (← update (← update v 0 (·+a)) 1 (·+b)) 2 (·+root)
  | .extremes _ => do
    let a ← item cell 0
    let b ← item cell 1
    update (← update v 0 (·.min a)) 1 (·.max b)
  | .total _ => do
    let a ← item cell 0
    update (← update v 0 (·+a)) 1 (·+Binary32.ofInt count)
  | .burnedDay s => do
    let day ← item cell 0
    let confidence ← item cell 1
    fold s day confidence v
  | .landCover s => do
    let counts ← front v s.classes
    return LandCover.addCell cell counts++v.drop s.classes

/-- Position of the first greatest count; the count at `best` is looked up again for each class. -/
def majorityFrom (counts : List Binary32) (best next : Nat) :
    List Binary32 → Except Stop Nat
  | [] => return best
  | c::cs => do
    let greatest ← item counts best
    if greatest < c then majorityFrom counts next (next+1) cs
    else majorityFrom counts best (next+1) cs

/-- Writes the output of a vector. -/
def output (v out : List Binary32) : Statistic → Except Stop (List Binary32)
  | .average s => do
    let weight ← item v 2
    if Arithmetic.zero < weight then
      let mean := (← item v 0)/weight
      let variance := (← item v 1)/weight-mean*mean
      write [mean,(Arithmetic.clampVariance variance).sqrt] out
    else write [s.fill,s.fill] out
  | .logAverage _ => do
    let weight ← item v 2
    if Arithmetic.zero < weight then
      let m := (← item v 0)/weight
      let variance := Arithmetic.clampVariance ((← item v 1)/weight-m*m)
      let mean := (m+Binary32.half*variance).exp
      write [mean,mean*(variance.exp-Binary32.ofInt 1).sqrt,m.exp,(m-variance).exp] out
    else write (List.replicate 4 Binary32.nan) out
  | .extremes s => do
    let least ← item v 0
    let greatest ← item v 1
    if least ≤ greatest then write [least,greatest] out else write [s.fill,s.fill] out
  | .total _ | .burnedDay _ => do write [← item v 0,← item v 1] out
  | .landCover s => do
    let counts ← front v s.classes
    let sum := LandCover.total counts
    if sum ≤ 0 then write (Binary32.nan::counts.map fun _ => 0) out
    else
      let majority ← majorityFrom counts 0 0 counts
      write (Binary32.ofNat majority::counts.map (·/sum)) out

section

variable {samples v : List Binary32}

theorem item_ok {i : Nat} (h : i < v.length) : ∃ x,v[i]? = some x ∧ item v i = .ok x :=
  ⟨v[i],List.getElem?_eq_getElem h,item_getElem h⟩

theorem fold_eq (s : BurnedDay) (day confidence : Binary32) (width : v.length = 2) :
    fold s day confidence v = .ok (s.fold day confidence v) := by
  obtain ⟨current,old,rfl⟩ := List.length_eq_two.mp width
  unfold fold BurnedDay.fold
  simp only [item,List.getElem?_cons_zero,ok_bind]
  by_cases burned : s.isBurned day
  · simp only [burned,if_true]
    split <;> rfl
  · simp only [burned,Bool.false_eq_true,if_false]
    split <;> rfl

theorem classOf?_lt {classes c : Nat} {x : Binary32} (h : LandCover.classOf? classes x = some c) :
    c < classes := by
  unfold LandCover.classOf? at h
  split at h
  next n _ =>
    split at h
    next range =>
      cases h
      omega
    next => cases h
  next => cases h

theorem addSamples_eq (s : Statistic) (enough : ∀ i ∈ s.reads,i < samples.length)
    (width : v.length = s.spatialWidth) : addSamples samples v s = .ok (s.addSamples samples v) := by
  cases s with
  | average s =>
    obtain ⟨a,b,rfl⟩ := List.length_eq_two.mp width
    obtain ⟨x,hx,read⟩ := item_ok (enough s.source (by simp [Statistic.reads]))
    simp only [addSamples,read,Statistic.addSamples,Statistic.foldSample,hx]
    rfl
  | logAverage s =>
    obtain ⟨a,b,rfl⟩ := List.length_eq_two.mp width
    obtain ⟨x,hx,read⟩ := item_ok (enough s.source (by simp [Statistic.reads]))
    simp only [addSamples,read,Statistic.addSamples,Statistic.foldSample,hx]
    rfl
  | extremes s =>
    obtain ⟨a,b,rfl⟩ := List.length_eq_two.mp width
    obtain ⟨x,hx,read⟩ := item_ok (enough s.source (by simp [Statistic.reads]))
    simp only [addSamples,read,Statistic.addSamples,Statistic.foldSample,hx]
    rfl
  | total s =>
    obtain ⟨a,rfl⟩ := List.length_eq_one_iff.mp width
    obtain ⟨x,hx,read⟩ := item_ok (enough s.source (by simp [Statistic.reads]))
    simp only [addSamples,read,Statistic.addSamples,Statistic.foldSample,hx]
    rfl
  | burnedDay s =>
    obtain ⟨day,hday,read⟩ := item_ok (enough s.source (by simp [Statistic.reads]))
    simp only [addSamples,read,ok_bind,Statistic.addSamples,BurnedDay.addSample,hday]
    cases source : s.confidence with
    | none => exact fold_eq s _ _ width
    | some i =>
      obtain ⟨c,hc,read⟩ := item_ok (enough i (by simp [Statistic.reads,source]))
      simp only [read,ok_bind,hc]
      exact fold_eq s _ _ width
  | landCover s =>
    obtain ⟨x,hx,read⟩ := item_ok (enough s.source (by simp [Statistic.reads]))
    simp only [addSamples,read,ok_bind,Statistic.addSamples,Statistic.foldSample,hx,
      LandCover.addSample]
    cases found : LandCover.classOf? s.classes x with
    | none => rfl
    | some c => exact update_eq (width ▸ classOf?_lt found) _

theorem finishSpatial_eq (s : Statistic) (count : Int) (width : v.length = s.spatialWidth) :
    finishSpatial count v s = .ok (s.finishSpatial count v) := by
  cases s with
  | average s =>
    obtain ⟨a,b,rfl⟩ := List.length_eq_two.mp width
    unfold finishSpatial Statistic.finishSpatial Average.divideByCount
    by_cases some : 0 < count
    · simp only [some,if_true]
      rfl
    · simp only [some,if_false]
      rfl
  | logAverage s =>
    obtain ⟨a,b,rfl⟩ := List.length_eq_two.mp width
    unfold finishSpatial Statistic.finishSpatial LogAverage.divideByRoot
    by_cases some : 0 < count
    · simp only [some,if_true]
      rfl
    · simp only [some,if_false]
      rfl
  | extremes s => rfl
  | total s => rfl
  | burnedDay s => rfl
  | landCover s => rfl

theorem addCell_eq (s : Statistic) {cell : List Binary32} (count : Int)
    (read : cell.length = s.spatialWidth) (width : v.length = s.temporalWidth) :
    addCell cell count v s = .ok (s.addCell cell count v) := by
  cases s with
  | average s =>
    obtain ⟨a,b,rfl⟩ := List.length_eq_two.mp read
    obtain ⟨x,y,z,rfl⟩ := List.length_eq_three.mp width
    rfl
  | logAverage s =>
    obtain ⟨a,b,rfl⟩ := List.length_eq_two.mp read
    obtain ⟨x,y,z,rfl⟩ := List.length_eq_three.mp width
    rfl
  | extremes s =>
    obtain ⟨a,b,rfl⟩ := List.length_eq_two.mp read
    obtain ⟨x,y,rfl⟩ := List.length_eq_two.mp width
    rfl
  | total s =>
    obtain ⟨a,rfl⟩ := List.length_eq_one_iff.mp read
    obtain ⟨x,y,rfl⟩ := List.length_eq_two.mp width
    rfl
  | burnedDay s =>
    obtain ⟨day,confidence,rfl⟩ := List.length_eq_two.mp read
    exact fold_eq s day confidence width
  | landCover s =>
    have whole : v.length = s.classes := width
    rw [addCell,front_eq whole.ge,ok_bind,List.take_of_length_le whole.le,
      List.drop_eq_nil_of_le whole.le,List.append_nil]
    rfl

/-- The count at the best position so far is the greatest one so far. -/
theorem majorityFrom_eq {counts rest : List Binary32} {best next : Nat} {greatest : Binary32}
    (here : counts[best]? = some greatest) (left : counts.drop next = rest) :
    majorityFrom counts best next rest = .ok (LandCover.majorityFrom greatest best next rest) := by
  induction rest generalizing best next greatest with
  | nil => rfl
  | cons c cs ih =>
    have first : counts[next]? = some c := by
      rw [← List.head?_drop,left]
      rfl
    have others : counts.drop (next+1) = cs := by
      rw [← List.drop_drop,left]
      rfl
    rw [majorityFrom,item_eq here,ok_bind,LandCover.majorityFrom]
    split
    · exact ih first others
    · exact ih here others

theorem majority_eq {counts : List Binary32} (some : counts ≠ []) :
    majorityFrom counts 0 0 counts = .ok (LandCover.majority counts) := by
  obtain ⟨c,cs,rfl⟩ := List.exists_cons_of_ne_nil some
  rw [majorityFrom,item_eq rfl,ok_bind,if_neg (Binary32.less_irrefl c)]
  exact majorityFrom_eq rfl rfl

theorem output_eq (s : Statistic) {out : List Binary32} (width : v.length = s.temporalWidth)
    (room : out.length = s.outputWidth) : output v out s = .ok (overwrite (s.output v) out) := by
  have fits : (s.output v).length ≤ out.length := by rw [s.output_length width,room]
  cases s with
  | average s =>
    obtain ⟨x,y,z,rfl⟩ := List.length_eq_three.mp width
    rw [← write_eq fits]
    simp only [output,item,List.getElem?_cons_zero,List.getElem?_cons_succ,ok_bind,
      Statistic.output,Average.output,Average.moments?]
    split <;> rfl
  | logAverage s =>
    obtain ⟨x,y,z,rfl⟩ := List.length_eq_three.mp width
    rw [← write_eq fits]
    simp only [output,item,List.getElem?_cons_zero,List.getElem?_cons_succ,ok_bind,
      Statistic.output,LogAverage.output,LogAverage.logMoments?]
    split <;> rfl
  | extremes s =>
    obtain ⟨x,y,rfl⟩ := List.length_eq_two.mp width
    rw [← write_eq fits]
    simp only [output,item,List.getElem?_cons_zero,List.getElem?_cons_succ,ok_bind,
      Statistic.output,Extremes.output]
    split <;> rfl
  | total s =>
    obtain ⟨x,y,rfl⟩ := List.length_eq_two.mp width
    exact write_eq fits
  | burnedDay s =>
    obtain ⟨x,y,rfl⟩ := List.length_eq_two.mp width
    exact write_eq fits
  | landCover s =>
    have whole : v.length = s.classes := width
    have some : v ≠ [] := by
      have range := s.classes_range
      apply List.ne_nil_of_length_pos
      omega
    rw [← write_eq fits,output,front_eq whole.ge,ok_bind,List.take_of_length_le whole.le]
    simp only [majority_eq some,ok_bind,Statistic.output,LandCover.output]
    split <;> rfl

end

end Guarded

end GlobeBins

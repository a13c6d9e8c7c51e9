import GlobeBins.Proofs.Job.Made
import GlobeBins.Proofs.Numeric.Singles
import GlobeBins.Proofs.Statistic.Lifetime

namespace GlobeBins

namespace Binary32

theorem is_zero : (0 : Binary32).Is 0 := is_ofNat (n := 0) (by decide)

/-- One more count. -/
theorem Is.tally {x y : Binary32} {counts : List Nat} {m : Nat}
    (hx : x.Is (Format.single.tally counts)) (hy : y.Is m)
    (few : counts.sum+m ≤ 2^63) : (x+y).Is (Format.single.tally (counts++[m])) := by
  have bound := Format.tally_le (F := .single) counts
  rw [Format.tally_append]
  exact hx.add hy (by omega)

end Binary32

namespace Total

/-- The second entry counts the samples of all partitions. -/
theorem lived_count (t : Total) {partitions : List (List (List Binary32))}
    (few : (partitions.map List.length).sum < 2^31) :
    ∃ sum count,(Statistic.total t).lived partitions = [sum,count] ∧
      count.Is (Format.single.tally
        ((partitions.map List.length).map Format.single.nearestWhole)) := by
  induction partitions using List.reverseRecOn with
  | nil => exact ⟨0,0,rfl,Binary32.is_zero⟩
  | append_singleton partitions samples ih =>
    rw [List.map_append,List.sum_append,List.map_singleton,List.sum_singleton] at few
    obtain ⟨sum,count,eq,counted⟩ := ih (by omega)
    obtain ⟨own,cell⟩ := List.length_eq_one_iff.mp ((Statistic.total t).summary_length samples)
    have next : (Binary32.ofInt samples.length).Is (Format.single.nearestWhole samples.length) := by
      rw [Binary32.ofInt_natCast]
      exact Binary32.is_ofNat (by omega)
    refine ⟨sum+own,count+Binary32.ofInt samples.length,?_,?_⟩
    · rw [Statistic.lived_append,Statistic.addPartition,eq,cell]
      rfl
    · have bound := Format.sum_nearestWhole_le (F := .single) (partitions.map List.length)
      have last := Format.nearestWhole_le (F := .single) samples.length
      rw [List.map_append,List.map_append,List.map_singleton,List.map_singleton]
      exact counted.tally next (by omega)

end Total

namespace LandCover

/-- The sample is rounded to this class. -/
def inClass (l : LandCover) (k : Nat) (samples : List Binary32) : Bool :=
  samples[l.source]?.bind Binary32.nearestInt? == some (k : Int)

variable {l : LandCover} {k : Nat}

theorem classOf?_eq_some {classes : Nat} {x : Binary32} (low : k < classes) :
    classOf? classes x = some k ↔ x.nearestInt? = some (k : Int) := by
  unfold classOf?
  cases x.nearestInt? with
  | none => simp
  | some n =>
    simp only [Option.ite_none_right_eq_some,Option.some.injEq]
    omega

/-- One more sample of a class is counted there, and nowhere else. -/
theorem addSamples_getElem? (low : k < l.classes) (samples v : List Binary32) :
    ((Statistic.landCover l).addSamples samples v)[k]? =
      if l.inClass k samples then v[k]?.map (·+1) else v[k]? := by
  cases found : samples[l.source]? with
  | none => simp [Statistic.addSamples,Statistic.foldSample,inClass,found]
  | some x =>
    have own := classOf?_eq_some (x := x) low
    simp only [Statistic.addSamples,Statistic.foldSample,inClass,found,addSample,Option.bind_some,
      beq_iff_eq,← own]
    cases h : classOf? l.classes x with
    | none => simp
    | some c => by_cases here : c = k <;> simp [here]

/-- There is no single between 2 to the 24 and the next even number. -/
theorem nearestWhole_succ (n : Nat) :
    Format.single.nearestWhole (min n (2^24)+1) = min (n+1) (2^24) := by
  by_cases low : n < 2^24
  · rw [Nat.min_eq_left low.le,Nat.min_eq_left low]
    exact Format.nearestWhole_of_holds (Format.holds_of_le low)
  · have full : Format.single.nearestWhole (2^24+1) = 2^24 := by decide +kernel
    rw [Nat.min_eq_right (by omega),Nat.min_eq_right (by omega),full]

theorem folded_count (low : k < l.classes) (samples : List (List Binary32)) :
    ∃ count,((Statistic.landCover l).folded samples)[k]? = some count ∧
      count.Is (min (samples.countP (l.inClass k)) (2^24) : Nat) := by
  induction samples using List.reverseRecOn with
  | nil => exact ⟨0,by simp [Statistic.folded,Statistic.neutralSpatial,low],Binary32.is_zero⟩
  | append_singleton samples xs ih =>
    obtain ⟨count,found,counted⟩ := ih
    rw [Statistic.folded_append,addSamples_getElem? low,found,List.countP_append,
      List.countP_singleton]
    cases l.inClass k xs
    · exact ⟨count,rfl,counted⟩
    · refine ⟨count+1,rfl,?_⟩
      have one : (1 : Binary32).Is (1 : Nat) := Binary32.is_ofNat (n := 1) (by decide)
      have next := counted.add one (by omega)
      rwa [nearestWhole_succ] at next

theorem addCell_getElem? {cell v : List Binary32} {x y : Binary32} (hv : v[k]? = some x)
    (hc : cell[k]? = some y) : (addCell cell v)[k]? = some (x+y) := by
  induction v generalizing cell k with
  | nil => cases hv
  | cons t ts ih =>
    cases cell with
    | nil => cases hc
    | cons c cs =>
      cases k with
      | zero =>
        cases hv
        cases hc
        rfl
      | succ k => exact ih hv hc

/-- The entry of a class counts its samples in all partitions. -/
theorem lived_count (low : k < l.classes) {partitions : List (List (List Binary32))}
    (few : (partitions.map List.length).sum < 2^31) :
    ∃ count,((Statistic.landCover l).lived partitions)[k]? = some count ∧
      count.Is (Format.single.tally
        (partitions.map fun samples => min (samples.countP (l.inClass k)) (2^24))) := by
  induction partitions using List.reverseRecOn with
  | nil => exact ⟨0,by simp [Statistic.lived_nil,Statistic.neutralTemporal,low],Binary32.is_zero⟩
  | append_singleton partitions samples ih =>
    rw [List.map_append,List.sum_append,List.map_singleton,List.sum_singleton] at few
    obtain ⟨count,found,counted⟩ := ih (by omega)
    obtain ⟨own,cell,next⟩ := folded_count low samples
    refine ⟨count+own,?_,?_⟩
    · rw [Statistic.lived_append]
      exact addCell_getElem? found cell
    · have bound : (partitions.map fun samples => min (samples.countP (l.inClass k)) (2^24)).sum ≤
          (partitions.map List.length).sum :=
        List.sum_le_sum fun samples _ => (Nat.min_le_left _ _).trans List.countP_le_length
      have last := List.countP_le_length (p := l.inClass k) (l := samples)
      rw [List.map_append,List.map_singleton]
      exact counted.tally next (by omega)

end LandCover

namespace Scheme

variable (c : Scheme) (partitions : List (List Observation)) (i : Int64)

/-- Number of accepted observations in a cell, for each partition. -/
def countsIn : List Nat := partitions.map fun os => (c.inCell os i).length

/-- Number of those whose sample is rounded to a class. -/
def classIn (l : LandCover) (k : Nat) : List Nat :=
  partitions.map fun os => (c.inCell os i).countP fun o => l.inClass k o.samples

/-- How a merged bin counts the accepted observations of its cell. -/
structure Counted (b : TemporalBin Binary32) : Prop where
  observations : b.observations.toInt = c.acceptedIn partitions b.index
  total : ∀ j t p out,c.ensemble.At j (.total t) p → out.length = c.ensemble.outputCount →
    ∃ sum count,p.output.of (c.ensemble.writeOutput b out) = [sum,count] ∧
      count.Is (Format.single.tally
        ((c.countsIn partitions b.index).map Format.single.nearestWhole)) ∧
      (Format.single.Running (c.countsIn partitions b.index) →
        (∀ n ∈ c.countsIn partitions b.index,Format.single.Holds n) →
        count.Is b.observations.toInt)
  classes : ∀ j l p k,c.ensemble.At j (.landCover l) p → k < l.classes →
    ∃ count,(p.temporal.of b.features)[k]? = some count ∧
      count.Is (Format.single.tally ((c.classIn partitions b.index l k).map (min · (2^24)))) ∧
      (Format.single.Running (c.classIn partitions b.index l k) →
        (∀ n ∈ c.classIn partitions b.index l k,n ≤ 2^24) →
        count.Is (c.classIn partitions b.index l k).sum)

variable {c partitions i}

theorem classIn_le (l : LandCover) (k : Nat) :
    (c.classIn partitions i l k).sum ≤ c.acceptedIn partitions i :=
  List.sum_le_sum fun _ _ => List.countP_le_length

/-- A partition that does not touch the cell adds nothing. -/
theorem tally_touching (count : List Observation → Nat) (none : count [] = 0) :
    Format.single.tally ((c.touching partitions i).map fun os => count (c.inCell os i)) =
      Format.single.tally (partitions.map fun os => count (c.inCell os i)) := by
  apply Format.tally_filter
  intro os _ empty
  have nil : c.inCell os i = [] := by simpa using empty
  rw [nil,none]

theorem samplesIn_few (few : c.acceptedIn partitions i < 2^31) :
    ∀ samples ∈ c.samplesIn partitions i,samples.length < 2^31 := by
  intro samples mem
  have least := List.le_sum_of_mem (List.mem_map_of_mem (f := List.length) mem)
  rw [sum_samplesIn] at least
  exact Nat.lt_of_le_of_lt least few

theorem merged_total {j : Nat} {t : Total} {p : Ensemble.Place}
    (here : c.ensemble.At j (.total t) p) (few : c.acceptedIn partitions i < 2^31)
    {out : List Binary32} (room : out.length = c.ensemble.outputCount) :
    ∃ sum count,p.output.of (c.ensemble.writeOutput (c.merged partitions i) out) = [sum,count] ∧
      count.Is (Format.single.tally
        ((c.countsIn partitions i).map Format.single.nearestWhole)) := by
  obtain ⟨sum,count,eq,counted⟩ :=
    t.lived_count (sum_samplesIn.trans_lt few)
  refine ⟨sum,count,?_,?_⟩
  · rw [merged_eq_lived,here.lived_output (samplesIn_few few) room,eq]
    rfl
  · simp only [samplesIn,List.map_map,Function.comp_def,List.length_map] at counted
    rw [tally_touching (fun os => Format.single.nearestWhole os.length) Format.nearestWhole_zero]
      at counted
    simpa only [countsIn,List.map_map,Function.comp_def] using counted

theorem merged_class {j k : Nat} {l : LandCover} {p : Ensemble.Place}
    (here : c.ensemble.At j (.landCover l) p) (low : k < l.classes)
    (few : c.acceptedIn partitions i < 2^31) :
    ∃ count,(p.temporal.of (c.merged partitions i).features)[k]? = some count ∧
      count.Is (Format.single.tally ((c.classIn partitions i l k).map (min · (2^24)))) := by
  obtain ⟨count,found,counted⟩ :=
    LandCover.lived_count low (sum_samplesIn.trans_lt few)
  refine ⟨count,?_,?_⟩
  · rw [merged_eq_lived,here.lived_slice (samplesIn_few few),found]
  · simp only [samplesIn,List.map_map,Function.comp_def,List.countP_map] at counted
    rw [tally_touching (fun os => min (os.countP fun o => l.inClass k o.samples) (2^24))
      (Nat.zero_min _)] at counted
    simpa only [classIn,List.map_map,Function.comp_def] using counted

theorem merged_counted (few : c.acceptedIn partitions i < 2^31) :
    c.Counted partitions (c.merged partitions i) := by
  have observations : (c.merged partitions i).observations.toInt = c.acceptedIn partitions i := by
    rw [merged_observations,Int32.toInt_ofNat_of_lt few]
  constructor
  case observations => rw [merged_index,observations]
  case total =>
    intro j t p out here room
    obtain ⟨sum,count,eq,counted⟩ := merged_total here few room
    rw [merged_index,observations]
    refine ⟨sum,count,eq,counted,fun running held => ?_⟩
    have same : (c.countsIn partitions i).map Format.single.nearestWhole =
        c.countsIn partitions i :=
      (List.map_congr_left fun n mem => Format.nearestWhole_of_holds (held n mem)).trans
        (List.map_id _)
    rwa [same,Format.tally_of_running running] at counted
  case classes =>
    intro j l p k here low
    obtain ⟨count,found,counted⟩ := merged_class here low few
    rw [merged_index]
    refine ⟨count,found,counted,fun running held => ?_⟩
    have same : (c.classIn partitions i l k).map (min · (2^24)) = c.classIn partitions i l k :=
      (List.map_congr_left fun n mem => Nat.min_eq_left (held n mem)).trans (List.map_id _)
    rwa [same,Format.tally_of_running running] at counted

/-- Partitions that repeat one accepted observation. -/
theorem countsIn_replicate {o : Observation} (admitted : c.admits o = true) (counts : List Nat) :
    c.countsIn (counts.map fun n => List.replicate n o) (c.cellOf o) = counts := by
  simp [countsIn,inCell,admitted,Function.comp_def]

theorem classIn_replicate {o : Observation} {l : LandCover} {k : Nat}
    (admitted : c.admits o = true) (own : l.inClass k o.samples = true) (counts : List Nat) :
    c.classIn (counts.map fun n => List.replicate n o) (c.cellOf o) l k = counts := by
  simp [classIn,inCell,admitted,own,Function.comp_def,List.countP_replicate]

end Scheme

/-- Sums and classes of one variable. -/
def Settings.classified : Settings :=
  {Settings.plain with
    statistics := [⟨"SUM","x",[]⟩,⟨"LC_CLASS","x",[("num_classes","2")]⟩]}

/-- Of two classes. -/
def LandCover.two : LandCover := ⟨"x",0,2,by decide⟩

namespace Job

/-- Every bin of the first pass counts its observations so. Up to 2 to the 24 of them all counts are
exact. -/
theorem temporal_counted (job : Job) (n : Nat) (observations : Nat → List Observation)
    {b : TemporalBin Binary32} (mem : b ∈ (job.temporal n observations).flatten)
    (few : job.scheme.acceptedIn ((List.range n).map observations) b.index < 2^31) :
    job.scheme.Counted ((List.range n).map observations) b ∧
      (job.scheme.acceptedIn ((List.range n).map observations) b.index ≤ 2^24 →
        (∀ j t p out,job.scheme.ensemble.At j (.total t) p →
          out.length = job.scheme.ensemble.outputCount →
          ∃ sum count,p.output.of (job.scheme.ensemble.writeOutput b out) = [sum,count] ∧
            count.Is b.observations.toInt) ∧
        ∀ j l p k,job.scheme.ensemble.At j (.landCover l) p → k < l.classes →
          ∃ count,(p.temporal.of b.features)[k]? = some count ∧
            count.Is (job.scheme.classIn ((List.range n).map observations) b.index l k).sum) := by
  obtain ⟨i,_,rfl⟩ := (job.mem_temporal n observations).mp mem
  have index : (job.scheme.merged ((List.range n).map observations) i).index = i :=
    Scheme.merged_index
  rw [index] at few
  have counted := Scheme.merged_counted few
  refine ⟨counted,fun low => ⟨?_,?_⟩⟩
  · intro j t p out here room
    obtain ⟨sum,count,eq,_,exactly⟩ := counted.total j t p out here room
    refine ⟨sum,count,eq,exactly (Format.running_of_le low) fun n mem => ?_⟩
    exact Format.holds_of_le ((List.le_sum_of_mem mem).trans low)
  · intro j l p k here inside
    obtain ⟨count,found,_,exactly⟩ := counted.classes j l p k here inside
    have fewer := (Scheme.classIn_le l k).trans low
    refine ⟨count,found,exactly (Format.running_of_le fewer) fun n mem => ?_⟩
    exact (List.le_sum_of_mem mem).trans fewer

/-- Partitions that repeat one observation of class 1 so many times each. -/
def repeated (counts : List Nat) (j : Nat) : List Observation :=
  List.replicate (counts.getD j 0) ⟨0,0,0,[1]⟩

theorem map_repeated (counts : List Nat) :
    (List.range counts.length).map (repeated counts) =
      counts.map fun n => List.replicate n ⟨0,0,0,[1]⟩ := by
  apply List.ext_getElem
  · simp
  · intro j _ inside
    simp only [List.length_map] at inside
    simp [repeated,inside]

/-- They make one bin, which counts them all. -/
theorem classified_bin (counts : List Nat) {n : Nat} (length : counts.length = n)
    (some : counts.sum ≠ 0) : ∃ job b p q,Job.make "classified" .classified = .ok job ∧
      b ∈ (job.temporal n (repeated counts)).flatten ∧
      job.scheme.ensemble.At 0 (.total ⟨"x",0⟩) p ∧ job.scheme.ensemble.At 1 (.landCover .two) q ∧
      job.scheme.countsIn ((List.range n).map (repeated counts)) b.index = counts ∧
      job.scheme.classIn ((List.range n).map (repeated counts)) b.index .two 1 = counts := by
  subst length
  have statistics : Ensemble.ofSettings Settings.classified.vars Settings.classified.statistics =
      .ok ⟨[.total ⟨"x",0⟩,.landCover .two]⟩ := by decide +kernel
  obtain ⟨job,made⟩ : ∃ job,Job.make "classified" .classified = .ok job :=
    Job.make_ok (by decide) statistics (by decide) (by decide +kernel) (by decide) Binary64.cos
  have parts := Job.made made
  have ensemble : job.scheme.ensemble = ⟨[.total ⟨"x",0⟩,.landCover .two]⟩ :=
    Except.ok.inj (parts.ensemble_ok.symm.trans statistics)
  have admitted : job.scheme.admits ⟨0,0,0,[1]⟩ = true := by
    rw [Scheme.admits,parts.vars_eq,ensemble]
    decide +kernel
  obtain ⟨p,at_total⟩ := Ensemble.at_of_getElem? (e := job.scheme.ensemble) (k := 0)
    (s := .total ⟨"x",0⟩) (by rw [ensemble]; rfl)
  obtain ⟨q,at_class⟩ := Ensemble.at_of_getElem? (e := job.scheme.ensemble) (k := 1)
    (s := .landCover .two) (by rw [ensemble]; rfl)
  have countsIn := Scheme.countsIn_replicate admitted counts
  have classIn := Scheme.classIn_replicate (l := .two) (k := 1) admitted (by decide +kernel) counts
  rw [← map_repeated] at countsIn classIn
  have touched : job.scheme.touching ((List.range counts.length).map (repeated counts))
      (job.scheme.cellOf ⟨0,0,0,[1]⟩) ≠ [] := by
    intro none
    have sum : job.scheme.acceptedIn ((List.range counts.length).map (repeated counts))
        (job.scheme.cellOf ⟨0,0,0,[1]⟩) = counts.sum := congrArg List.sum countsIn
    rw [← Scheme.acceptedIn_touching,none] at sum
    exact some sum.symm
  refine ⟨job,_,p,q,made,(job.mem_temporal _ _).mpr ⟨_,touched,rfl⟩,at_total,at_class,?_⟩
  rw [Scheme.merged_index]
  exact ⟨countsIn,classIn⟩

/-- Two observations and one more. -/
theorem temporal_counted_three : ∃ job b,Job.make "classified" .classified = .ok job ∧
    b ∈ (job.temporal 2 (repeated [2,1])).flatten ∧
    job.scheme.acceptedIn ((List.range 2).map (repeated [2,1])) b.index = 3 ∧
    job.scheme.Counted ((List.range 2).map (repeated [2,1])) b ∧
    (∃ p sum count,job.scheme.ensemble.At 0 (.total ⟨"x",0⟩) p ∧
      p.output.of (job.scheme.ensemble.writeOutput b job.scheme.ensemble.fillVector) = [sum,count] ∧
      count.Is b.observations.toInt) ∧
    ∃ q count,job.scheme.ensemble.At 1 (.landCover .two) q ∧
      (q.temporal.of b.features)[1]? = some count ∧ count.Is (3 : Nat) := by
  obtain ⟨job,b,p,q,made,mem,at_total,at_class,countsIn,classIn⟩ :=
    classified_bin [2,1] (n := 2) rfl (by decide)
  have accepted : job.scheme.acceptedIn ((List.range 2).map (repeated [2,1])) b.index = 3 :=
    congrArg List.sum countsIn
  obtain ⟨counted,exactly⟩ := job.temporal_counted 2 (repeated [2,1]) mem (by omega)
  obtain ⟨totals,classes⟩ := exactly (by omega)
  obtain ⟨sum,count,total⟩ := totals 0 _ p _ at_total (Ensemble.fillVector_length _)
  obtain ⟨classCount,found,own⟩ := classes 1 .two q 1 at_class (by decide)
  have three : [2,1].sum = 3 := rfl
  rw [classIn,three] at own
  exact ⟨job,b,made,mem,accepted,counted,⟨p,sum,count,at_total,total⟩,
    ⟨q,classCount,at_class,found,own⟩⟩

/-- A count of 2 to the 24 does not grow by one and one more. -/
theorem counts_rounded : ∃ job b,Job.make "classified" .classified = .ok job ∧
    b ∈ (job.temporal 3 (repeated [2^24,1,1])).flatten ∧
    job.scheme.acceptedIn ((List.range 3).map (repeated [2^24,1,1])) b.index = 2^24+2 ∧
    (∃ p sum count,job.scheme.ensemble.At 0 (.total ⟨"x",0⟩) p ∧
      p.output.of (job.scheme.ensemble.writeOutput b job.scheme.ensemble.fillVector) = [sum,count] ∧
      count.Is (2^24 : Nat) ∧ ¬count.Is b.observations.toInt) ∧
    ∃ q count,job.scheme.ensemble.At 1 (.landCover .two) q ∧
      (q.temporal.of b.features)[1]? = some count ∧ count.Is (2^24 : Nat) ∧
      ¬count.Is (job.scheme.classIn ((List.range 3).map (repeated [2^24,1,1])) b.index .two 1).sum := by
  obtain ⟨job,b,p,q,made,mem,at_total,at_class,countsIn,classIn⟩ :=
    classified_bin [2^24,1,1] (n := 3) rfl (by decide)
  have accepted : job.scheme.acceptedIn ((List.range 3).map (repeated [2^24,1,1])) b.index =
      2^24+2 := congrArg List.sum countsIn
  have counted : job.scheme.Counted ((List.range 3).map (repeated [2^24,1,1])) b := by
    obtain ⟨i,_,rfl⟩ := (job.mem_temporal _ _).mp mem
    apply Scheme.merged_counted
    rw [Scheme.merged_index] at accepted
    omega
  obtain ⟨sum,count,eq,total,_⟩ :=
    counted.total 0 _ p _ at_total (Ensemble.fillVector_length _)
  obtain ⟨classCount,found,own,_⟩ := counted.classes 1 .two q 1 at_class (by decide)
  have rounded : Format.single.tally ([2^24,1,1].map Format.single.nearestWhole) = 2^24 := by
    decide +kernel
  have classRounded : Format.single.tally ([2^24,1,1].map (min · (2^24))) = 2^24 := by
    decide +kernel
  rw [countsIn,rounded] at total
  rw [classIn,classRounded] at own
  have observations : b.observations.toInt = (2^24+2 : Nat) := by rw [counted.observations,accepted]
  refine ⟨job,b,made,mem,accepted,⟨p,sum,count,at_total,eq,total,fun other => ?_⟩,
    ⟨q,classCount,at_class,found,own,fun other => ?_⟩⟩
  · rw [observations] at other
    exact absurd (total.unique other) (by decide)
  · rw [classIn] at other
    exact absurd (own.unique other) (by decide)

end Job

end GlobeBins

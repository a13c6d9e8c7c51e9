import GlobeBins.Proofs.Codec.RoundTrip
import GlobeBins.Proofs.Disk
import GlobeBins.Proofs.Job.Trace
import GlobeBins.Proofs.SpatialPass.Cells

namespace GlobeBins

namespace Job

theorem spillName_injective {id : String} {n m : Nat} (h : spillName id n = spillName id m) :
    n = m := by
  have value : ∀ n,Nat.ofDigitChars 10
      (List.replicate (5-(Nat.toDigits 10 n).length) '0'++Nat.toDigits 10 n) 0 = n := by
    intro n
    rw [Nat.ofDigitChars_append,Nat.ofDigitChars_replicate_zero,Nat.mul_zero,
      Nat.ofDigitChars_ten_toDigits]
  simp only [spillName] at h
  have digits := String.ofList_inj.mp
    ((String.append_right_inj _).mp ((String.append_left_inj _).mp h))
  rw [← value n,digits,value m]

/-- Two partitions are never spilled to one file. -/
theorem spillPath_injective {directory id : String} {n m : Nat}
    (h : spillPath directory id n = spillPath directory id m) : n = m :=
  spillName_injective (Files.join_injective h)

section

variable {α : Type}

theorem firstFault?_eq_none {results : List (Except Fault α)} :
    firstFault? results = none ↔ ∃ xs : List α,results = xs.map .ok := by
  rw [firstFault?,List.findSome?_eq_none_iff]
  constructor
  · intro all
    induction results with
    | nil => exact ⟨[],rfl⟩
    | cons r rs ih =>
      obtain ⟨xs,rfl⟩ := ih fun x hx => all x (by simp [hx])
      cases r with
      | error f => simpa using all (.error f)
      | ok x => exact ⟨x::xs,rfl⟩
  · intro h r hr
    obtain ⟨xs,rfl⟩ := h
    obtain ⟨x,_,rfl⟩ := List.mem_map.mp hr
    rfl

theorem successes_ok (xs : List α) : successes (xs.map .ok) = xs := by
  rw [successes,List.filterMap_map]
  exact List.filterMap_some

end

/-- A partition all of whose observations can be read. -/
def readable (os : List Observation) : Except Fault (List (Except Fault Observation)) :=
  .ok (os.map .ok)

/-- Partitions with their numbers. -/
def numbered (names : List String) : List (Nat × String) := names.zipIdx.map fun p => (p.2,p.1)

variable (job : Job)

/-- What is spilled for the bins of a partition. -/
def spillContent (os : List Observation) : Bytes :=
  (SpatialPass.run job.scheme os).1.flatMap job.spatialCodec.spatialRecord

def spilled (directory : Option String) (id : Nat) (os : List Observation) : SpilledPartition :=
  ⟨id,match directory with
    | none => .memory (job.spillContent os)
    | some d => .file (spillPath d job.id id),(SpatialPass.run job.scheme os).2⟩

/-- The bins of a partition as they are read back. -/
def recovered (id : Nat) (os : List Observation) : SourceRecords (SpatialBin Binary32) :=
  ⟨id,(SpatialPass.run job.scheme os).1⟩

/-- A job whose bins can be written. -/
def Writable (os : List Observation) : Prop :=
  ∀ b ∈ (SpatialPass.run job.scheme os).1,job.spatialCodec.Fits b.features

/-- Nothing went wrong around a run over partitions of some observations each, up to the calls that
make the products. -/
structure Undisturbed (order : List (Nat × String)) (observations : Nat → List Observation)
    (log : List Step) : Prop where
  opened : openings log = order.map fun p => (p.2,readable (observations p.1))
  wrote : ∀ path content result,.wrote path content result ∈ log → result = .ok ()
  read : ∀ path content,.read path content ∈ log →
    ∃ written result,.wrote path written result ∈ log ∧ content = .ok written

variable {job}

theorem bind_readable (os : List Observation) :
    readable os >>= job.binPartition = .ok (SpatialPass.run job.scheme os) := by
  have items : (os.map .ok).mapM (fun item : Except Fault Observation => item) = .ok os := by
    rw [mapM_eq_ok,List.forall₂_map_left_iff,List.forall₂_same]
    intro _ _
    exact rfl
  exact bind_eq_ok.mpr ⟨_,rfl,bind_eq_ok.mpr ⟨os,items,rfl⟩⟩

/-- What can be binned are observations only. -/
theorem readable_of_binned {items : Except Fault (List (Except Fault Observation))}
    {result : List (SpatialBin Binary32) × PassCounts}
    (h : items >>= job.binPartition = .ok result) : ∃ os,items = readable os := by
  simp only [binPartition,bind_eq_ok] at h
  obtain ⟨found,rfl,os,read,_⟩ := h
  have same : List.Forall₂ (fun a b => a = b) found (os.map .ok) := by
    rw [List.forall₂_map_right_iff]
    exact mapM_eq_ok.mp read
  exact ⟨os,congrArg Except.ok (List.forall₂_eq_eq_eq ▸ same)⟩

theorem writable_iff {os : List Observation} : job.Writable os ↔
    job.spatialCodec.encodeSpatial (SpatialPass.run job.scheme os).1 = .ok (job.spillContent os) :=
  ⟨fun fits => Codec.encodeSpatial_eq_ok_iff.mpr ⟨fits,rfl⟩,
    fun ok => (Codec.encodeSpatial_eq_ok_iff.mp ok).1⟩

theorem not_writable {os : List Observation} {f : Fault}
    (h : job.spatialCodec.encodeSpatial (SpatialPass.run job.scheme os).1 = .error f) :
    ¬job.Writable os := by
  intro fits
  rw [writable_iff.mp fits] at h
  cases h

section

variable {directory : Option String} {id : Nat} {name : String}
  {o : Except Fault SpilledPartition × List Event} {steps : List Step} {os : List Observation}
  (h : job.Binned directory id name o steps)
  (opened : openings steps = [(name,readable os)])

include h opened

/-- A partition that is read whole is spilled, unless its bins cannot be written. -/
theorem Binned.result
    (wrote : ∀ path content result,.wrote path content result ∈ steps → result = .ok ()) :
    o.1 = .ok (job.spilled directory id os) ∧ job.Writable os ∨
      ∃ f,o.1 = .error f ∧ ¬job.Writable os := by
  have whole : readable os >>= job.binPartition = .ok (SpatialPass.run job.scheme os) :=
    bind_readable os
  cases h with
  | refused binned =>
    cases opened
    rw [whole] at binned
    cases binned
  | unencoded binned encoded =>
    cases opened
    rw [whole] at binned
    cases binned
    exact .inr ⟨_,rfl,not_writable encoded⟩
  | inMemory binned encoded place =>
    cases opened
    rw [whole] at binned
    cases binned
    obtain ⟨fits,rfl⟩ := Codec.encodeSpatial_eq_ok_iff.mp encoded
    subst place
    exact .inl ⟨rfl,fits⟩
  | onFile binned encoded place =>
    cases opened
    rw [whole] at binned
    cases binned
    obtain ⟨fits,rfl⟩ := Codec.encodeSpatial_eq_ok_iff.mp encoded
    subst place
    exact .inl ⟨rfl,fits⟩
  | unspilled binned encoded place =>
    have ok := wrote _ _ _ (List.mem_cons_of_mem _ (List.mem_singleton_self _))
    cases ok

/-- What a partition writes goes to its own file. -/
theorem Binned.wrote {path : String} {content : Bytes} {result : Except IoFailure Unit}
    (mem : .wrote path content result ∈ steps) :
    ∃ d,directory = some d ∧ path = spillPath d job.id id ∧ content = job.spillContent os := by
  have whole : readable os >>= job.binPartition = .ok (SpatialPass.run job.scheme os) :=
    bind_readable os
  cases h with
  | refused | unencoded | inMemory => simp at mem
  | onFile binned encoded place | unspilled binned encoded place =>
    cases opened
    rw [whole] at binned
    cases binned
    obtain ⟨_,rfl⟩ := Codec.encodeSpatial_eq_ok_iff.mp encoded
    simp only [List.mem_cons,reduceCtorEq,Step.wrote.injEq,List.not_mem_nil,or_false,
      false_or] at mem
    obtain ⟨rfl,rfl,_⟩ := mem
    exact ⟨_,place,rfl,rfl⟩

end

section

variable {directory : Option String} {order : List (Nat × String)}
  {observations : Nat → List Observation} {parts : List Part}

/-- What was noted of all partitions together tells what each of them held. -/
theorem binned_opened (h : List.Forall₂ (fun p part => part.1.1 = p.1 ∧
      job.Binned directory p.1 p.2 part.1.2 part.2) order parts)
    (opened : openings (parts.flatMap Prod.snd) =
      order.map fun p => (p.2,readable (observations p.1))) :
    ∀ part ∈ parts,∃ p ∈ order,part.1.1 = p.1 ∧ job.Binned directory p.1 p.2 part.1.2 part.2 ∧
      openings part.2 = [(p.2,readable (observations p.1))] := by
  induction h with
  | nil => simp
  | @cons p part order parts first _ ih =>
    obtain ⟨items,opens⟩ := first.2.opens
    rw [List.flatMap_cons,openings_append,opens,List.map_cons,List.singleton_append,
      List.cons_eq_cons] at opened
    obtain ⟨here,rest⟩ := opened
    intro q hq
    rcases List.mem_cons.mp hq with rfl | hq
    · exact ⟨p,by simp,first.1,first.2,by rw [opens,here]⟩
    · obtain ⟨p',hp,facts⟩ := ih rest q hq
      exact ⟨p',by simp [hp],facts⟩

theorem binned_ids (h : List.Forall₂ (fun p part => part.1.1 = p.1 ∧
      job.Binned directory p.1 p.2 part.1.2 part.2) order parts) :
    parts.map (fun part => part.1.1) = order.map Prod.fst := by
  induction h with
  | nil => rfl
  | cons first _ ih => rw [List.map_cons,List.map_cons,first.1,ih]

/-- Results that the numbers determine stand in the order of the numbers. -/
theorem results_eq {n : Nat} {result : Nat → Except Fault SpilledPartition}
    (ids : (parts.map fun part => part.1.1).Perm (List.range n))
    (each : ∀ part ∈ parts,part.1.2.1 = result part.1.1) :
    results parts = (List.range n).map result := by
  let le (a b : Nat × Except Fault SpilledPartition × List Event) : Bool := a.1 ≤ b.1
  have sort_perm : ((parts.map Prod.fst).mergeSort le).Perm (parts.map Prod.fst) :=
    List.mergeSort_perm _ _
  have trans : ∀ a b c,le a b = true → le b c = true → le a c = true := by
    intro a b c ab bc
    simp only [le,decide_eq_true_eq] at *
    omega
  have total : ∀ a b,(le a b || le b a) = true := by
    intro a b
    simp only [le,Bool.or_eq_true,decide_eq_true_eq]
    omega
  have order_le : (((parts.map Prod.fst).mergeSort le).map Prod.fst).Pairwise (· ≤ ·) := by
    rw [List.pairwise_map]
    exact (List.pairwise_mergeSort trans total _).imp of_decide_eq_true
  have numbers : ((parts.map Prod.fst).mergeSort le).map Prod.fst = List.range n := by
    have perm : (((parts.map Prod.fst).mergeSort le).map Prod.fst).Perm (List.range n) := by
      refine (sort_perm.map Prod.fst).trans ?_
      rw [List.map_map]
      exact ids
    exact perm.eq_of_pairwise (fun a b _ _ ab ba => Nat.le_antisymm ab ba) order_le
      (List.pairwise_lt_range.imp Nat.le_of_lt)
  rw [← numbers,List.map_map]
  apply List.map_congr_left
  intro o ho
  obtain ⟨part,hpart,rfl⟩ := List.mem_map.mp (sort_perm.mem_iff.mp ho)
  exact each part hpart

theorem mem_results {r : Except Fault SpilledPartition} :
    r ∈ results parts ↔ ∃ part ∈ parts,part.1.2.1 = r := by
  simp only [results,List.mem_map,List.mem_mergeSort]
  constructor
  · intro h
    obtain ⟨_,⟨part,hpart,rfl⟩,rfl⟩ := h
    exact ⟨part,hpart,rfl⟩
  · intro h
    obtain ⟨part,hpart,rfl⟩ := h
    exact ⟨_,⟨part,hpart,rfl⟩,rfl⟩

/-- A spill that is read as it was written gives its content. -/
theorem Given.content {id : Nat} {os : List Observation} {given : Except Fault Bytes}
    {steps : List Step} (h : Given (job.spilled directory id os).spill given steps)
    (reads : ∀ d content,directory = some d → .read (spillPath d job.id id) content ∈ steps →
      content = .ok (job.spillContent os)) : given = .ok (job.spillContent os) := by
  cases directory with
  | none =>
    cases h
    rfl
  | some d =>
    cases h with
    | file _ content _ =>
      rw [reads d content rfl (by simp)]
      rfl

theorem Recovered.sources {ids : List Nat}
    {result : Except Fault (List (SourceRecords (SpatialBin Binary32)))} {steps : List Step}
    (h : job.Recovered (ids.map fun i => job.spilled directory i (observations i)) result steps)
    (writable : ∀ i ∈ ids,job.Writable (observations i))
    (reads : ∀ i d content,directory = some d → .read (spillPath d job.id i) content ∈ steps →
      content = .ok (job.spillContent (observations i))) :
    result = .ok (ids.map fun i => job.recovered i (observations i)) := by
  induction ids generalizing result steps with
  | nil =>
    cases h
    rfl
  | cons i ids ih =>
    have decoded : Except.ok (job.spillContent (observations i)) >>=
        job.spatialCodec.decodeSpatial = .ok (SpatialPass.run job.scheme (observations i)).1 :=
      Codec.decodeSpatial_encodeSpatial (writable_iff.mp (writable i (by simp)))
    rw [List.map_cons] at h
    cases h with
    | failed first bad removals =>
      have content := first.content fun d c place mem => reads i d c place (by simp [mem])
      rw [content,decoded] at bad
      cases bad
    | next first good rest =>
      have content := first.content fun d c place mem => reads i d c place (by simp [mem])
      rw [content,decoded] at good
      cases good
      have others := ih rest (fun j hj => writable j (by simp [hj]))
        fun j d c place mem => reads j d c place (by simp [mem])
      rw [others]
      rfl

end

section

variable (job) (n : Nat) (observations : Nat → List Observation)

/-- All partitions as they are read back. -/
def sources : List (SourceRecords (SpatialBin Binary32)) :=
  (List.range n).map fun i => job.recovered i (observations i)

def spills (directory : Option String) : List SpilledPartition :=
  (List.range n).map fun i => job.spilled directory i (observations i)

/-- What the first pass makes of all partitions. -/
def temporal : List (List (TemporalBin Binary32)) := job.temporalPass (job.sources n observations)

end

theorem numbered_fst (names : List String) :
    (numbered names).map Prod.fst = List.range names.length := by
  rw [numbered,List.map_map]
  exact (List.zipIdx_map_snd 0 names).trans List.range_eq_range'.symm

/-- In any order the numbers are those below the number of partitions. -/
theorem numbers_perm {names : List String} {order : List (Nat × String)}
    (perm : order.Perm (numbered names)) :
    (order.map Prod.fst).Perm (List.range names.length) := by
  rw [← numbered_fst]
  exact perm.map _

theorem numbers_nodup {names : List String} {order : List (Nat × String)}
    (perm : order.Perm (numbered names)) : (order.map Prod.fst).Nodup :=
  (numbers_perm perm).nodup_iff.mpr List.nodup_range

/-- All partitions are spilled, or one of them cannot be. -/
theorem binned_results {directory : Option String} {n : Nat} {order : List (Nat × String)}
    {observations : Nat → List Observation} {parts : List Part}
    (binned : List.Forall₂ (fun p part => part.1.1 = p.1 ∧
      job.Binned directory p.1 p.2 part.1.2 part.2) order parts)
    (ids : (order.map Prod.fst).Perm (List.range n))
    (opened : openings (parts.flatMap Prod.snd) =
      order.map fun p => (p.2,readable (observations p.1)))
    (wrote : ∀ path content result,.wrote path content result ∈ parts.flatMap Prod.snd →
      result = .ok ()) :
    (∀ i < n,job.Writable (observations i)) ∧
        results parts = (job.spills n observations directory).map .ok ∨
      ¬(∀ i < n,job.Writable (observations i)) ∧ ∃ f,.error f ∈ results parts := by
  have each : ∀ part ∈ parts,
      part.1.2.1 = .ok (job.spilled directory part.1.1 (observations part.1.1)) ∧
          job.Writable (observations part.1.1) ∨
        ∃ f,part.1.2.1 = .error f ∧ ¬job.Writable (observations part.1.1) := by
    intro part hpart
    obtain ⟨p,_,number,goes,opens⟩ := binned_opened binned opened part hpart
    rw [number]
    exact goes.result opens fun path content result mem =>
      wrote path content result (List.mem_flatMap.mpr ⟨part,hpart,mem⟩)
  rw [← binned_ids binned] at ids
  have number : ∀ i,i < n ↔ ∃ part ∈ parts,part.1.1 = i := by
    intro i
    rw [← List.mem_range,← ids.mem_iff,List.mem_map]
  by_cases all : ∀ i < n,job.Writable (observations i)
  · refine .inl ⟨all,?_⟩
    rw [spills,List.map_map]
    apply results_eq ids
    intro part hpart
    rcases each part hpart with ⟨ok,_⟩ | ⟨_,_,not⟩
    · exact ok
    · exact absurd (all _ ((number _).mpr ⟨part,hpart,rfl⟩)) not
  · refine .inr ⟨all,?_⟩
    push Not at all
    obtain ⟨i,low,not⟩ := all
    obtain ⟨part,hpart,rfl⟩ := (number i).mp low
    rcases each part hpart with ⟨_,fits⟩ | ⟨f,error,_⟩
    · exact absurd fits not
    · exact ⟨f,mem_results.mpr ⟨part,hpart,error⟩⟩

/-- Spills that are read as they were written leave only the second pass to fail. -/
theorem Passed.undisturbed {directory : Option String} {n : Nat}
    {observations : Nat → List Observation} {outcome : Outcome} {steps : List Step}
    (h : job.Passed (job.spills n observations directory) outcome steps)
    (writable : ∀ i < n,job.Writable (observations i))
    (reads : ∀ i d content,directory = some d → .read (spillPath d job.id i) content ∈ steps →
      content = .ok (job.spillContent (observations i))) :
    (∃ f,outcome.result = .error f ∧ job.regionPass (job.temporal n observations) = .error f) ∧
        calls steps = [] ∨
      ∃ partitions written made,
        job.regionPass (job.temporal n observations) = .ok partitions ∧
        ProductCall.Performed (job.productCalls partitions) written made ∧
        calls steps = calls made ∧ outcome.result = written.map fun _ =>
          job.summary (job.spills n observations directory) (job.temporal n observations)
            partitions := by
  have inRange : ∀ i ∈ List.range n,job.Writable (observations i) :=
    fun i hi => writable i (List.mem_range.mp hi)
  cases h with
  | unrecovered back => cases back.sources inRange reads
  | uncopied back copied =>
    cases back.sources inRange reads
    exact .inl ⟨⟨_,rfl,copied⟩,back.silent⟩
  | formatted back copied performed =>
    cases back.sources inRange fun i d content place mem =>
      reads i d content place (List.mem_append_left _ mem)
    refine .inr ⟨_,_,_,copied,performed,?_,rfl⟩
    rw [calls_append,back.silent,List.nil_append]

/-- What is read back is what binning wrote there, as nothing is written later. -/
theorem Passed.read_back {directory : Option String} {order : List (Nat × String)}
    {observations : Nat → List Observation} {parts : List Part} {ps : List SpilledPartition}
    {outcome : Outcome} {steps : List Step}
    (binned : List.Forall₂ (fun p part => part.1.1 = p.1 ∧
      job.Binned directory p.1 p.2 part.1.2 part.2) order parts)
    (opened : openings (parts.flatMap Prod.snd) =
      order.map fun p => (p.2,readable (observations p.1)))
    (passed : job.Passed ps outcome steps)
    (calm : Undisturbed order observations (parts.flatMap Prod.snd++steps)) (i : Nat) (d : String)
    (content : Except IoFailure Bytes) (place : directory = some d)
    (mem : .read (spillPath d job.id i) content ∈ steps) :
    content = .ok (job.spillContent (observations i)) := by
  obtain ⟨_,_,wrote,rfl⟩ := calm.read _ _ (List.mem_append_right _ mem)
  rcases List.mem_append.mp wrote with wrote | wrote
  · obtain ⟨part,hpart,wrote⟩ := List.mem_flatMap.mp wrote
    obtain ⟨p,_,_,goes,opens⟩ := binned_opened binned opened part hpart
    obtain ⟨d',place',path,rfl⟩ := goes.wrote opens wrote
    cases place.symm.trans place'
    rw [spillPath_injective path]
  · rcases passed.steps _ wrote with ⟨_,_,eq⟩ | ⟨_,_,eq⟩ | ⟨_,_,eq⟩ <;> cases eq

/-- An undisturbed run fails before its products only where features are too many for the codecs. -/
theorem Ran.undisturbed {directory : Option String} {names : List String}
    {order : List (Nat × String)} {observations : Nat → List Observation} {outcome : Outcome}
    {log : List Step} (ran : job.Ran directory order outcome log)
    (perm : order.Perm (numbered names)) (calm : Undisturbed order observations log) :
    (∃ f,outcome.result = .error f) ∧ calls log = [] ∧
        (¬(∀ i < names.length,job.Writable (observations i)) ∨
          ∃ f,job.regionPass (job.temporal names.length observations) = .error f) ∨
      ∃ partitions written steps,
        job.regionPass (job.temporal names.length observations) = .ok partitions ∧
        ProductCall.Performed (job.productCalls partitions) written steps ∧
        calls log = calls steps ∧ outcome.result = written.map fun _ =>
          job.summary (job.spills names.length observations directory)
            (job.temporal names.length observations) partitions := by
  have ids := numbers_perm perm
  cases ran with
  | @failed parts f removed binned first removals =>
    have opened := calm.opened
    rw [openings_append,(removals_silent removals).1,List.append_nil] at opened
    have silent : calls (parts.flatMap Prod.snd++removed) = [] := by
      rw [calls_append,binned_calls binned,(removals_silent removals).2,List.append_nil]
    refine .inl ⟨⟨_,rfl⟩,silent,.inl ?_⟩
    rcases binned_results binned ids opened
      (fun _ _ _ mem => calm.wrote _ _ _ (List.mem_append_left _ mem)) with ⟨_,eq⟩ | ⟨not,_⟩
    · rw [firstFault?_eq_none.mpr ⟨_,eq⟩] at first
      cases first
    · exact not
  | @passed parts inner steps binned first passed =>
    have opened := calm.opened
    rw [openings_append,passed.opens,List.append_nil] at opened
    rcases binned_results binned ids opened
      (fun _ _ _ mem => calm.wrote _ _ _ (List.mem_append_left _ mem)) with ⟨writable,eq⟩ | ⟨_,f,error⟩
    · rw [eq,successes_ok] at passed
      have reads := passed.read_back binned opened calm
      have silent : calls (parts.flatMap Prod.snd++steps) = calls steps := by
        rw [calls_append,binned_calls binned,List.nil_append]
      rw [silent]
      rcases passed.undisturbed writable reads with ⟨⟨f,error,copied⟩,none⟩ | ended
      · exact .inl ⟨⟨f,error⟩,none,.inr ⟨f,copied⟩⟩
      · exact .inr ended
    · obtain ⟨xs,eq⟩ := firstFault?_eq_none.mp first
      rw [eq] at error
      simp at error

theorem Binned.in_memory {id : Nat} {name : String}
    {o : Except Fault SpilledPartition × List Event} {steps : List Step}
    (h : job.Binned none id name o steps) : (∃ items,steps = [.opened name items]) ∧
      ∀ p,o.1 = .ok p → ∃ content,p.spill = .memory content := by
  cases h with
  | refused | unencoded => exact ⟨⟨_,rfl⟩,fun p eq => by cases eq⟩
  | inMemory =>
    refine ⟨⟨_,rfl⟩,fun p eq => ?_⟩
    cases eq
    exact ⟨_,rfl⟩
  | onFile _ _ place | unspilled _ _ place => cases place

theorem Recovered.in_memory {ps : List SpilledPartition}
    {result : Except Fault (List (SourceRecords (SpatialBin Binary32)))} {steps : List Step}
    (h : job.Recovered ps result steps) (memory : ∀ p ∈ ps,∃ content,p.spill = .memory content) :
    ∀ step ∈ steps,step.IsRemoval := by
  induction h with
  | done => simp
  | @failed p ps _ _ _ _ first _ removals =>
    obtain ⟨content,kept⟩ := memory p (by simp)
    rw [kept] at first
    cases first
    exact removals
  | @next p ps _ _ _ _ _ first _ _ ih =>
    obtain ⟨content,kept⟩ := memory p (by simp)
    rw [kept] at first
    cases first
    exact ih fun q hq => memory q (by simp [hq])

/-- A partition's steps, and what its result has to do with its number and name. -/
theorem binned_part {directory : Option String} {order : List (Nat × String)} {parts : List Part}
    (h : List.Forall₂ (fun p part => part.1.1 = p.1 ∧
      job.Binned directory p.1 p.2 part.1.2 part.2) order parts) :
    ∀ part ∈ parts,∃ p ∈ order,job.Binned directory p.1 p.2 part.1.2 part.2 := by
  induction h with
  | nil => simp
  | @cons p _ _ _ first _ ih =>
    intro part hpart
    rcases List.mem_cons.mp hpart with rfl | hpart
    · exact ⟨p,by simp,first.2⟩
    · obtain ⟨q,hq,goes⟩ := ih part hpart
      exact ⟨q,by simp [hq],goes⟩

theorem binned_no_reads {order : List (Nat × String)} {parts : List Part}
    (h : List.Forall₂ (fun p part => part.1.1 = p.1 ∧
      job.Binned none p.1 p.2 part.1.2 part.2) order parts) (path : String)
    (content : Except IoFailure Bytes) : .read path content ∉ parts.flatMap Prod.snd := by
  intro mem
  obtain ⟨part,hpart,mem⟩ := List.mem_flatMap.mp mem
  obtain ⟨p,_,goes⟩ := binned_part h part hpart
  obtain ⟨items,eq⟩ := goes.in_memory.1
  simp [eq] at mem

theorem binned_in_memory {order : List (Nat × String)} {parts : List Part}
    (h : List.Forall₂ (fun p part => part.1.1 = p.1 ∧
      job.Binned none p.1 p.2 part.1.2 part.2) order parts) :
    ∀ p ∈ successes (results parts),∃ content,p.spill = .memory content := by
  intro p hp
  obtain ⟨r,hr,ok⟩ := List.mem_filterMap.mp hp
  obtain ⟨part,hpart,rfl⟩ := mem_results.mp hr
  obtain ⟨q,_,goes⟩ := binned_part h part hpart
  apply goes.in_memory.2 p
  split at ok
  next eq =>
    cases ok
    exact eq
  next => cases ok

/-- Spills that are kept in memory are not read from files. -/
theorem Ran.no_reads {order : List (Nat × String)} {outcome : Outcome} {log : List Step}
    (ran : job.Ran none order outcome log) (path : String) (content : Except IoFailure Bytes) :
    .read path content ∉ log := by
  intro mem
  cases ran with
  | failed binned _ removals =>
    rcases List.mem_append.mp mem with mem | mem
    · exact binned_no_reads binned path content mem
    · obtain ⟨_,_,eq⟩ := removals _ mem
      cases eq
  | @passed parts _ _ binned _ passed =>
    have reading : ∀ {result steps},job.Recovered (successes (results parts)) result steps →
        .read path content ∉ steps := by
      intro result steps back mem
      obtain ⟨_,_,eq⟩ := back.in_memory (binned_in_memory binned) _ mem
      cases eq
    rcases List.mem_append.mp mem with mem | mem
    · exact binned_no_reads binned path content mem
    · cases passed with
      | unrecovered back | uncopied back => exact reading back mem
      | formatted back _ performed =>
        rcases List.mem_append.mp mem with mem | mem
        · exact reading back mem
        · obtain ⟨_,_,eq⟩ := performed.steps _ mem
          cases eq

end Job

section

variable {σ : Type}

/-- Surroundings in which partitions hold some observations and nothing fails; spills are kept in
memory. -/
def Surroundings.quiet (observations : String → List Observation) : Surroundings (StateM σ) where
  source name := pure (Job.readable (observations name))
  files := ⟨fun _ => pure (.error .notFound),fun _ _ => pure (.ok ()),fun _ => pure (.ok ()),
    fun _ => pure (.ok ())⟩
  sink _ := pure (.ok ())
  spillDirectory := none

variable (observations : String → List Observation) (job : Job)

theorem quiet_openings {order : List (Nat × String)} {parts : List Job.Part}
    (h : List.Forall₂ (fun p part => part.1.1 = p.1 ∧
      job.Binned none p.1 p.2 part.1.2 part.2) order parts)
    (given : ∀ step ∈ parts.flatMap Prod.snd,
      (Surroundings.quiet (σ := σ) observations).Gives step) :
    openings (parts.flatMap Prod.snd) =
      order.map fun p => (p.2,Job.readable (observations p.2)) := by
  induction h with
  | nil => rfl
  | @cons p part _ _ first _ ih =>
    obtain ⟨⟨items,eq⟩,_⟩ := first.2.in_memory
    have held : Job.readable (observations p.2) = items := by
      obtain ⟨_,held⟩ := given (.opened p.2 items) (by simp [eq])
      exact held
    have rest := ih fun step hs => given step (by
      rw [List.flatMap_cons]
      exact List.mem_append_right _ hs)
    rw [List.flatMap_cons,openings_append,rest,eq,← held]
    rfl

/-- Nothing disturbs a run in quiet surroundings. -/
theorem quiet_undisturbed {names : List String} {order : List (Nat × String)}
    (perm : order.Perm (Job.numbered names)) (w : σ) :
    Job.Undisturbed order (fun i => observations (names.getD i ""))
      (job.log (.quiet observations) order w) where
  opened := by
    have ran := job.ran (.quiet observations) order w
    have given := job.log_given (.quiet observations) order w
    generalize job.outcome (.quiet observations) order w = outcome at ran
    generalize job.log (.quiet observations) order w = log at ran given
    have named : order.map (fun p => (p.2,Job.readable (observations p.2))) = order.map
        fun p => (p.2,Job.readable (observations (names.getD p.1 ""))) := by
      apply List.map_congr_left
      intro p hp
      obtain ⟨⟨name,i⟩,mem,rfl⟩ := List.mem_map.mp (perm.mem_iff.mp hp)
      rw [List.getD_eq_getElem?_getD,List.mem_zipIdx_iff_getElem?.mp mem]
      rfl
    rw [← named]
    cases ran with
    | failed binned _ removals =>
      rw [openings_append,(removals_silent removals).1,List.append_nil]
      exact quiet_openings observations job binned fun step hs =>
        given step (List.mem_append_left _ hs)
    | passed binned _ passed =>
      rw [openings_append,passed.opens,List.append_nil]
      exact quiet_openings observations job binned fun step hs =>
        given step (List.mem_append_left _ hs)
  wrote path content result mem := by
    obtain ⟨_,eq⟩ := job.log_given _ _ _ _ mem
    exact eq.symm
  read path content mem :=
    absurd mem ((job.ran (.quiet observations) order w).no_reads path content)

theorem quiet_accepts (order : List (Nat × String)) (w : σ) :
    ∀ c ∈ calls (job.log (.quiet observations) order w),c.2 = .ok () := by
  intro c hc
  obtain ⟨step,hs,eq⟩ := List.mem_filterMap.mp hc
  cases step with
  | called call result =>
    cases eq
    obtain ⟨_,eq⟩ := job.log_given _ _ _ _ hs
    exact eq.symm
  | _ => cases eq

end

end GlobeBins

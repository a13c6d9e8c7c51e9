import GlobeBins.Proofs.Job.Made
import GlobeBins.Proofs.Job.Undisturbed

namespace GlobeBins

/-- The first item that is an error is the one that decides. -/
theorem mapM_items_error {ε α : Type} {items : List (Except ε α)} {e : ε} :
    items.mapM (fun item => item) = .error e ↔
      ∃ (good : List α) (rest : List (Except ε α)),items = good.map .ok++.error e::rest := by
  have oks (l : List (Except ε α)) : (∀ b ∈ l,∃ c,b = .ok c) ↔ ∃ good : List α,l = good.map .ok := by
    have range := Set.ext_iff.mp (Set.range_list_map (Except.ok : α → Except ε α)) l
    simpa only [Set.mem_range,Set.mem_ofPred_eq,eq_comm] using range.symm
  simp only [mapM_eq_error,FirstFailing,oks]
  constructor
  · intro h
    obtain ⟨_,_,rest,rfl,⟨good,rfl⟩,rfl⟩ := h
    exact ⟨good,rest,rfl⟩
  · intro h
    obtain ⟨good,rest,rfl⟩ := h
    exact ⟨_,_,rest,rfl,⟨good,rfl⟩,rfl⟩

namespace Job

section

variable {α : Type} {n : Nat} {result : Nat → Except Fault α}

theorem firstFault?_range_none :
    firstFault? ((List.range n).map result) = none ↔ ∀ j < n,∃ a,result j = .ok a := by
  simp only [firstFault?,List.findSome?_eq_none_iff,List.forall_mem_map,List.mem_range]
  refine forall₂_congr fun j _ => ?_
  cases result j <;> simp

/-- Of results that stand by number, the first fault is that of the lowest number. -/
theorem firstFault?_range {f : Fault} : firstFault? ((List.range n).map result) = some f ↔
    ∃ i < n,result i = .error f ∧ ∀ j < i,∃ a,result j = .ok a := by
  induction n with
  | zero => simp [firstFault?]
  | succ n ih =>
    have last : firstFault? ((List.range (n+1)).map result) = some f ↔
        firstFault? ((List.range n).map result) = some f ∨
          firstFault? ((List.range n).map result) = none ∧ result n = .error f := by
      rw [List.range_succ,List.map_append,firstFault?,List.findSome?_append,Option.or_eq_some_iff]
      refine or_congr_right (and_congr_right fun _ => ?_)
      cases eq : result n <;> simp [eq]
    refine last.trans ((or_congr ih (and_congr_left' firstFault?_range_none)).trans ?_)
    constructor
    · intro h
      obtain ⟨i,low,first⟩ | ⟨before,here⟩ := h
      · exact ⟨i,by omega,first⟩
      · exact ⟨n,Nat.lt_succ_self n,here,before⟩
    · intro h
      obtain ⟨i,low,here,before⟩ := h
      rcases Nat.lt_succ_iff_lt_or_eq.mp low with low | rfl
      · exact .inl ⟨i,low,here,before⟩
      · exact .inr ⟨before,here⟩

end

section

variable (job : Job) (directory : Option String)

/-- How a partition fails, told by its steps. -/
inductive Fails (id : Nat) (name : String) : List Step → Fault → Prop
  | unopened (f : Fault) : Fails id name [.opened name (.error f)] f
  | unread (good : List Observation) (f : Fault) (rest : List (Except Fault Observation)) :
    Fails id name [.opened name (.ok (good.map .ok++.error f::rest))] f
  | unencoded {os : List Observation} {f : Fault} :
    job.spatialCodec.encodeSpatial (SpatialPass.run job.scheme os).1 = .error f →
      Fails id name [.opened name (readable os)] f
  | unwritten {os : List Observation} {d : String} (f : IoFailure) : job.Writable os →
    directory = some d → Fails id name [.opened name (readable os),
      .wrote (spillPath d job.id id) (job.spillContent os) (.error f)] (.io f)

/-- How a partition is spilled. -/
inductive Spills (id : Nat) (name : String) : List Step → Prop
  | inMemory {os : List Observation} : job.Writable os → directory = none →
    Spills id name [.opened name (readable os)]
  | onFile {os : List Observation} {d : String} : job.Writable os → directory = some d →
    Spills id name [.opened name (readable os),
      .wrote (spillPath d job.id id) (job.spillContent os) (.ok ())]

/-- What came of reading the spill of a partition back from its file. -/
def ReadsBack (id : Nat) (steps : List Step)
    (result : Except Fault (List (SpatialBin Binary32))) : Prop :=
  ∃ d content,directory = some d ∧ .read (spillPath d job.id id) content ∈ steps ∧
    content.mapError .io >>= job.spatialCodec.decodeSpatial = result

end

/-- No pass over bins has begun, and no product. -/
def Barren (outcome : Outcome) (log : List Step) : Prop :=
  (∀ stage count,.bins stage count ∉ outcome.events) ∧ calls log = []

section

variable {job : Job} {directory : Option String} {id : Nat} {name : String}
  {o : Except Fault SpilledPartition × List Event} {steps : List Step}

theorem binPartition_error {items : Except Fault (List (Except Fault Observation))} {f : Fault}
    (h : items >>= job.binPartition = .error f) : items = .error f ∨
      ∃ (good : List Observation) (rest : List (Except Fault Observation)),
        items = .ok (good.map .ok++.error f::rest) := by
  cases items with
  | error g =>
    cases h
    exact .inl rfl
  | ok items =>
    cases read : items.mapM fun item => item with
    | error g =>
      simp only [ok_bind,binPartition,read] at h
      cases h
      obtain ⟨good,rest,rfl⟩ := mapM_items_error.mp read
      exact .inr ⟨good,rest,rfl⟩
    | ok os =>
      simp only [ok_bind,binPartition,read] at h
      cases h

theorem Binned.ends (h : job.Binned directory id name o steps) :
    (∃ p,o.1 = .ok p) ∧ job.Spills directory id name steps ∨
      ∃ f,o.1 = .error f ∧ job.Fails directory id name steps f := by
  have written {items : Except Fault (List (Except Fault Observation))}
      {bins : List (SpatialBin Binary32)} {counts : PassCounts} {content : Bytes}
      (binned : items >>= job.binPartition = .ok (bins,counts))
      (encoded : job.spatialCodec.encodeSpatial bins = .ok content) :
      ∃ os,items = readable os ∧ job.Writable os ∧ content = job.spillContent os := by
    obtain ⟨os,rfl⟩ := readable_of_binned binned
    rw [bind_readable] at binned
    cases binned
    exact ⟨os,rfl,Codec.encodeSpatial_eq_ok_iff.mp encoded⟩
  cases h with
  | refused binned =>
    rcases binPartition_error binned with rfl | ⟨good,rest,rfl⟩
    · exact .inr ⟨_,rfl,.unopened _⟩
    · exact .inr ⟨_,rfl,.unread good _ rest⟩
  | unencoded binned encoded =>
    obtain ⟨os,rfl⟩ := readable_of_binned binned
    rw [bind_readable] at binned
    cases binned
    exact .inr ⟨_,rfl,.unencoded encoded⟩
  | inMemory binned encoded place =>
    obtain ⟨os,rfl,fits,rfl⟩ := written binned encoded
    exact .inl ⟨⟨_,rfl⟩,.inMemory fits place⟩
  | onFile binned encoded place =>
    obtain ⟨os,rfl,fits,rfl⟩ := written binned encoded
    exact .inl ⟨⟨_,rfl⟩,.onFile fits place⟩
  | unspilled binned encoded place =>
    obtain ⟨os,rfl,fits,rfl⟩ := written binned encoded
    exact .inr ⟨_,rfl,.unwritten _ fits place⟩

/-- The end of a partition, worked out from its steps. -/
def ending (job : Job) : List Step → Except Fault Unit
  | .opened _ items::more => do
    let (bins,_) ← items >>= job.binPartition
    let _ ← job.spatialCodec.encodeSpatial bins
    match more with
    | .wrote _ _ (.error f)::_ => .error (.io f)
    | _ => .ok ()
  | _ => .ok ()

theorem Fails.ending {f : Fault} (h : job.Fails directory id name steps f) :
    job.ending steps = .error f := by
  cases h with
  | unopened => rfl
  | unread good f rest =>
    have read : (good.map Except.ok++Except.error f::rest).mapM (fun item => item) =
        Except.error f :=
      mapM_items_error.mpr ⟨good,rest,rfl⟩
    simp only [Job.ending,ok_bind,binPartition,read]
    rfl
  | unencoded encoded =>
    simp only [Job.ending,bind_readable,ok_bind,encoded]
    rfl
  | unwritten f fits =>
    simp only [Job.ending,bind_readable,ok_bind,writable_iff.mp fits]

theorem Spills.ending (h : job.Spills directory id name steps) : job.ending steps = .ok () := by
  cases h with
  | inMemory fits | onFile fits =>
    simp only [Job.ending,bind_readable,ok_bind,writable_iff.mp fits]

theorem Fails.opened {f : Fault} (h : job.Fails directory id name steps f) :
    ∃ items more,steps = .opened name items::more := by
  cases h <;> exact ⟨_,_,rfl⟩

theorem Spills.opened (h : job.Spills directory id name steps) :
    ∃ items more,steps = .opened name items::more := by
  cases h <;> exact ⟨_,_,rfl⟩

theorem Fails.not_spills {f : Fault} (fails : job.Fails directory id name steps f) :
    ¬job.Spills directory id name steps := by
  intro spills
  cases fails.ending.symm.trans spills.ending

theorem Binned.fails_iff (h : job.Binned directory id name o steps) {f : Fault} :
    job.Fails directory id name steps f ↔ o.1 = .error f := by
  constructor
  · intro fails
    rcases h.ends with ⟨_,spills⟩ | ⟨g,error,fails'⟩
    · exact absurd spills fails.not_spills
    · rw [error,← Except.error.inj (fails.ending.symm.trans fails'.ending)]
  · intro error
    rcases h.ends with ⟨⟨p,ok⟩,_⟩ | ⟨g,error',fails⟩
    · cases ok.symm.trans error
    · rwa [← Except.error.inj (error'.symm.trans error)]

theorem Binned.spills_iff (h : job.Binned directory id name o steps) :
    job.Spills directory id name steps ↔ ∃ p,o.1 = .ok p := by
  rcases h.ends with ⟨ok,spills⟩ | ⟨f,error,fails⟩
  · exact ⟨fun _ => ok,fun _ => spills⟩
  · constructor
    · exact fun spills => absurd spills fails.not_spills
    · intro ok
      obtain ⟨p,ok⟩ := ok
      cases error.symm.trans ok

theorem Binned.no_bins (h : job.Binned directory id name o steps) (stage : String)
    (count : UInt64) : .bins stage count ∉ o.2 := by
  cases h <;> simp

theorem binned_no_bins {order : List (Nat × String)} {parts : List Part}
    (h : List.Forall₂ (fun p part => part.1.1 = p.1 ∧
      job.Binned directory p.1 p.2 part.1.2 part.2) order parts) (stage : String)
    (count : UInt64) : .bins stage count ∉ parts.flatMap fun part => part.1.2.2 := by
  intro mem
  obtain ⟨part,hpart,mem⟩ := List.mem_flatMap.mp mem
  obtain ⟨p,_,goes⟩ := binned_part h part hpart
  exact goes.no_bins stage count mem

/-- A spill is where its partition's number says. -/
theorem Binned.spilled_place (h : job.Binned directory id name o steps) {p : SpilledPartition}
    (ok : o.1 = .ok p) {d : String} (place : directory = some d) :
    p.spill = .file (spillPath d job.id id) := by
  cases h with
  | refused | unencoded | unspilled => cases ok
  | inMemory _ _ none => cases place.symm.trans none
  | onFile _ _ here =>
    cases ok
    cases place.symm.trans here
    rfl

end

variable {job : Job}

/-- A spill that cannot be used ends reading back, after all before it could be. -/
theorem Recovered.lost {d : String} {ids : List Nat} {spilled : Nat → SpilledPartition}
    {result : Except Fault (List (SourceRecords (SpatialBin Binary32)))} {steps : List Step}
    (h : job.Recovered (ids.map spilled) result steps) (ascending : ids.Pairwise (· < ·))
    (place : ∀ i ∈ ids,(spilled i).spill = .file (spillPath d job.id i)) {i : Nat}
    {content : Except IoFailure Bytes} {f : Fault}
    (read : .read (spillPath d job.id i) content ∈ steps)
    (bad : content.mapError .io >>= job.spatialCodec.decodeSpatial = .error f) :
    result = .error f ∧ ∀ j ∈ ids,j < i →
      ∃ bins,job.ReadsBack (some d) j steps (.ok bins) := by
  induction ids generalizing result steps with
  | nil =>
    cases h
    cases read
  | cons k ids ih =>
    rw [List.pairwise_cons] at ascending
    have first := place k (by simp)
    have given : ∀ {given more},Given (spilled k).spill given more → ∃ found removed,
        more = [.read (spillPath d job.id k) found,.removed (spillPath d job.id k) removed] ∧
          given = found.mapError .io := by
      intro given more h
      rw [first] at h
      cases h with
      | file _ found removed => exact ⟨found,removed,rfl,rfl⟩
    have here : ∀ {found removed},.read (spillPath d job.id i) content ∈
        [Step.read (spillPath d job.id k) found,.removed (spillPath d job.id k) removed] →
          i = k ∧ content = found := by
      intro found removed mem
      simp only [List.mem_cons,Step.read.injEq,reduceCtorEq,List.not_mem_nil,or_false] at mem
      exact ⟨spillPath_injective mem.1,mem.2⟩
    rw [List.map_cons] at h
    cases h with
    | failed one wrong removals =>
      obtain ⟨found,removed,rfl,rfl⟩ := given one
      rcases List.mem_append.mp read with read | read
      · obtain ⟨rfl,rfl⟩ := here read
        refine ⟨congrArg Except.error (Except.error.inj (wrong.symm.trans bad)),?_⟩
        intro j hj low
        rcases List.mem_cons.mp hj with rfl | hj
        · exact absurd low (Nat.lt_irrefl _)
        · exact absurd low (Nat.lt_asymm (ascending.1 j hj))
      · obtain ⟨_,_,eq⟩ := removals _ read
        cases eq
    | next one good rest =>
      obtain ⟨found,removed,rfl,rfl⟩ := given one
      rcases List.mem_append.mp read with read | read
      · obtain ⟨rfl,rfl⟩ := here read
        cases good.symm.trans bad
      · obtain ⟨rfl,before⟩ := ih rest ascending.2 (fun j hj => place j (by simp [hj])) read
        refine ⟨rfl,?_⟩
        intro j hj low
        rcases List.mem_cons.mp hj with rfl | hj
        · exact ⟨_,d,found,rfl,by simp,good⟩
        · obtain ⟨bins,d',content',same,mem,decoded⟩ := before j hj low
          exact ⟨bins,d',content',same,List.mem_append_right _ mem,decoded⟩

theorem Passed.lost {d : String} {n : Nat} {spilled : Nat → SpilledPartition} {outcome : Outcome}
    {steps : List Step} (h : job.Passed ((List.range n).map spilled) outcome steps)
    (place : ∀ i < n,(spilled i).spill = .file (spillPath d job.id i)) {i : Nat} {f : Fault}
    (lost : job.ReadsBack (some d) i steps (.error f)) :
    outcome = ⟨.error f,[]⟩ ∧ calls steps = [] ∧
      ∀ j < n,j < i → ∃ bins,job.ReadsBack (some d) j steps (.ok bins) := by
  obtain ⟨_,content,same,read,bad⟩ := lost
  cases same
  have placed : ∀ j ∈ List.range n,(spilled j).spill = .file (spillPath d job.id j) :=
    fun j hj => place j (List.mem_range.mp hj)
  cases h with
  | unrecovered back =>
    obtain ⟨error,before⟩ := back.lost List.pairwise_lt_range placed read bad
    cases error
    exact ⟨rfl,back.silent,fun j low lt => before j (List.mem_range.mpr low) lt⟩
  | uncopied back => cases (back.lost List.pairwise_lt_range placed read bad).1
  | formatted back _ performed =>
    rcases List.mem_append.mp read with read | read
    · cases (back.lost List.pairwise_lt_range placed read bad).1
    · obtain ⟨_,_,eq⟩ := performed.steps _ read
      cases eq

section

variable {directory : Option String} {n : Nat} {order : List (Nat × String)} {part : Nat → Part}
  (ids : (order.map Prod.fst).Perm (List.range n))
  (each : ∀ p ∈ order,(part p.1).1.1 = p.1 ∧
    job.Binned directory p.1 p.2 (part p.1).1.2 (part p.1).2)

include ids

theorem number_lt {p : Nat × String} (hp : p ∈ order) : p.1 < n :=
  List.mem_range.mp (ids.mem_iff.mp (List.mem_map.mpr ⟨p,hp,rfl⟩))

theorem exists_number {i : Nat} (low : i < n) : ∃ p ∈ order,p.1 = i :=
  List.mem_map.mp (ids.mem_iff.mpr (List.mem_range.mpr low))

include each

/-- The results of partitions that are told by their numbers. -/
theorem results_positions :
    results (order.map fun p => part p.1) = (List.range n).map fun i => (part i).1.2.1 := by
  apply results_eq
  · rw [List.map_map]
    refine (List.Perm.of_eq (List.map_congr_left fun p hp => ?_)).trans ids
    exact (each p hp).1
  · intro q hq
    obtain ⟨p,hp,rfl⟩ := List.mem_map.mp hq
    rw [(each p hp).1]

/-- No partition has a fault exactly if all are spilled. -/
theorem no_fault_iff : firstFault? (results (order.map fun p => part p.1)) = none ↔
    ∀ p ∈ order,job.Spills directory p.1 p.2 (part p.1).2 := by
  rw [results_positions ids each,firstFault?_range_none]
  constructor
  · intro fine p hp
    exact (each p hp).2.spills_iff.mpr (fine p.1 (number_lt ids hp))
  · intro all i low
    obtain ⟨p,hp,rfl⟩ := exists_number ids low
    exact (each p hp).2.spills_iff.mp (all p hp)

/-- The first fault is that of the failing partition before which all are spilled. -/
theorem first_fault_iff {f : Fault} :
    firstFault? (results (order.map fun p => part p.1)) = some f ↔
      ∃ p ∈ order,job.Fails directory p.1 p.2 (part p.1).2 f ∧
        ∀ q ∈ order,q.1 < p.1 → job.Spills directory q.1 q.2 (part q.1).2 := by
  rw [results_positions ids each,firstFault?_range]
  constructor
  · intro h
    obtain ⟨i,low,error,before⟩ := h
    obtain ⟨p,hp,rfl⟩ := exists_number ids low
    refine ⟨p,hp,(each p hp).2.fails_iff.mpr error,fun q hq lt => ?_⟩
    exact (each q hq).2.spills_iff.mpr (before q.1 lt)
  · intro h
    obtain ⟨p,hp,fails,before⟩ := h
    refine ⟨p.1,number_lt ids hp,(each p hp).2.fails_iff.mp fails,fun j lt => ?_⟩
    obtain ⟨q,hq,rfl⟩ := exists_number ids (lt.trans (number_lt ids hp))
    exact (each q hq).2.spills_iff.mp (before q hq lt)

/-- If all partitions are spilled to a directory, each has its file there. -/
theorem spills_placed (fine : ∀ p ∈ order,job.Spills directory p.1 p.2 (part p.1).2) {d : String}
    (place : directory = some d) : ∃ spilled : Nat → SpilledPartition,
      results (order.map fun p => part p.1) = ((List.range n).map spilled).map .ok ∧
        ∀ i < n,(spilled i).spill = .file (spillPath d job.id i) := by
  have : Nonempty SpilledPartition := ⟨0,.memory [],0,0,0⟩
  have one : ∀ i < n,∃ q,(part i).1.2.1 = .ok q ∧ q.spill = .file (spillPath d job.id i) := by
    intro i low
    obtain ⟨p,hp,rfl⟩ := exists_number ids low
    obtain ⟨q,ok⟩ := (each p hp).2.spills_iff.mp (fine p hp)
    exact ⟨q,ok,(each p hp).2.spilled_place ok place⟩
  choose! spilled ok placed using one
  refine ⟨spilled,?_,placed⟩
  rw [results_positions ids each,List.map_map]
  exact List.map_congr_left fun i hi => ok i (List.mem_range.mp hi)

end

end Job

/-- Each partition is spilled or fails, and then the run comes to nothing: the fault is that of the
first failing partition by number, however they are ordered, and all that follows is cleaning up.
Where all are spilled, the first spill by number that cannot be read back or decoded is the fault. -/
theorem run_fails_first (job : Job) {σ : Type} (s : Surroundings (StateM σ)) {names : List String}
    {order : List (Nat × String)} (perm : order.Perm (Job.numbered names)) (w : σ) :
    ∃ (steps : Nat → List Step) (rest : List Step),
      job.log s order w = order.flatMap (fun p => steps p.1)++rest ∧
      (∀ p ∈ order,job.Spills s.spillDirectory p.1 p.2 (steps p.1) ∨
        ∃ f,job.Fails s.spillDirectory p.1 p.2 (steps p.1) f) ∧
      (∀ p ∈ order,∀ f,job.Fails s.spillDirectory p.1 p.2 (steps p.1) f →
        (∀ q ∈ order,q.1 < p.1 → job.Spills s.spillDirectory q.1 q.2 (steps q.1)) →
        (job.outcome s order w).result = .error f ∧ (∀ step ∈ rest,step.IsRemoval) ∧
          Job.Barren (job.outcome s order w) (job.log s order w)) ∧
      ((∀ p ∈ order,job.Spills s.spillDirectory p.1 p.2 (steps p.1)) →
        ∀ i < names.length,∀ f,job.ReadsBack s.spillDirectory i rest (.error f) →
        (job.outcome s order w).result = .error f ∧
          (∀ j < i,∃ bins,job.ReadsBack s.spillDirectory j rest (.ok bins)) ∧
          Job.Barren (job.outcome s order w) (job.log s order w)) := by
  have ids := Job.numbers_perm perm
  have ran := job.ran s order w
  generalize job.outcome s order w = outcome at ran
  generalize job.log s order w = log at ran
  cases ran with
  | @failed parts f removed binned first removals =>
    obtain ⟨part,rfl,each⟩ := Job.binned_positions binned (Job.numbers_nodup perm)
    have fails_first := @Job.first_fault_iff job _ _ _ _ ids each
    refine ⟨fun i => (part i).2,removed,by rw [List.flatMap_map],?_,?_,?_⟩
    · exact fun p hp => (each p hp).2.ends.imp And.right fun ⟨g,_,fails⟩ => ⟨g,fails⟩
    · intro p hp g fails lower
      cases first.symm.trans (fails_first.mpr ⟨p,hp,fails,lower⟩)
      refine ⟨rfl,removals,Job.binned_no_bins binned,?_⟩
      rw [calls_append,Job.binned_calls binned,(removals_silent removals).2,List.append_nil]
    · intro all
      obtain ⟨p,hp,fails,_⟩ := fails_first.mp first
      exact absurd (all p hp) fails.not_spills
  | @passed parts outcome steps binned none passed =>
    obtain ⟨part,rfl,each⟩ := Job.binned_positions binned (Job.numbers_nodup perm)
    have fine := (Job.no_fault_iff ids each).mp none
    refine ⟨fun i => (part i).2,steps,by rw [List.flatMap_map],?_,?_,?_⟩
    · exact fun p hp => (each p hp).2.ends.imp And.right fun ⟨g,_,fails⟩ => ⟨g,fails⟩
    · exact fun p hp f fails _ => absurd (fine p hp) fails.not_spills
    · intro _ i low f lost
      have ⟨d,_,place,_⟩ := lost
      obtain ⟨spilled,whole,placed⟩ := Job.spills_placed ids each fine place
      rw [whole,Job.successes_ok] at passed
      rw [place] at lost ⊢
      obtain ⟨rfl,silent,before⟩ := passed.lost placed lost
      refine ⟨rfl,fun j lt => before j (lt.trans low) lt,?_,?_⟩
      · rw [List.append_nil]
        exact Job.binned_no_bins binned
      · rw [calls_append,Job.binned_calls binned,silent,List.append_nil]

/-- Two partitions that fail, the second one first. -/
theorem run_fails_first_two : ∃ job,Job.make "plain" .plain = .ok job ∧
    ∃ s : Surroundings (StateM Unit),
      (∀ name w,((s.source name).run w).1 =
        if name = "a" then .ok [.ok ⟨0,0,0,[1]⟩,.error (.partition "a" .invalidData)]
        else .error (.partition name .notFound)) ∧
      (job.outcome s [(1,"b"),(0,"a")] ()).result = .error (.partition "a" .invalidData) ∧
      calls (job.log s [(1,"b"),(0,"a")] ()) = [] := by
  obtain ⟨job,made⟩ := Settings.plain_made
  let items (name : String) : Except Fault (List (Except Fault Observation)) :=
    if name = "a" then .ok [.ok ⟨0,0,0,[1]⟩,.error (.partition "a" .invalidData)]
    else .error (.partition name .notFound)
  let s : Surroundings (StateM Unit) := {Surroundings.quiet fun _ => [] with
    source := fun name => pure (items name)}
  have perm : [(1,"b"),(0,"a")].Perm (Job.numbered ["a","b"]) := .swap _ _ _
  obtain ⟨steps,rest,noted,ends,first,_⟩ := run_fails_first job s perm ()
  have opened : ∃ found more,steps 0 = .opened "a" found::more := by
    rcases ends (0,"a") (by simp) with spills | ⟨_,fails⟩
    · exact spills.opened
    · exact fails.opened
  obtain ⟨found,more,eq⟩ := opened
  have held : items "a" = found := by
    obtain ⟨_,given⟩ := job.log_given s _ () (.opened "a" found) (by
      rw [noted]
      simp [eq])
    exact given
  have ending : job.ending (steps 0) = .error (.partition "a" .invalidData) := by
    rw [eq,← held]
    rfl
  have fails : job.Fails none 0 "a" (steps 0) (.partition "a" .invalidData) := by
    rcases ends (0,"a") (by simp) with spills | ⟨_,fails⟩
    · cases ending.symm.trans spills.ending
    · cases ending.symm.trans fails.ending
      exact fails
  obtain ⟨result,_,_,silent⟩ := first (0,"a") (by simp) _ fails fun q _ low => by
    exact absurd low (Nat.not_lt_zero _)
  exact ⟨job,made,s,fun _ _ => rfl,result,silent⟩

end GlobeBins

import Mathlib
import GlobeBins.Job.Run

namespace GlobeBins

/-- One use of the surroundings and what came of it. -/
inductive Step where
  | opened (name : String) (items : Except Fault (List (Except Fault Observation)))
  | read (path : String) (content : Except IoFailure Bytes)
  | wrote (path : String) (content : Bytes) (result : Except IoFailure Unit)
  | removed (path : String) (result : Except IoFailure Unit)
  | madeDirectories (path : String) (result : Except IoFailure Unit)
  | called (call : ProductCall) (result : Except Fault Unit)

section

variable {σ : Type}

/-- The same operation, noted behind all earlier ones. -/
def note {α : Type} (step : α → Step) (x : StateM σ α) : StateM (σ × List Step) α := fun s =>
  let (a,w) := x.run s.1
  (a,(w,s.2++[step a]))

def Surroundings.noted (s : Surroundings (StateM σ)) : Surroundings (StateM (σ × List Step)) where
  source name := note (.opened name) (s.source name)
  files := ⟨fun path => note (.read path) (s.files.read path),
    fun path content => note (.wrote path content) (s.files.write path content),
    fun path => note (.removed path) (s.files.remove path),
    fun path => note (.madeDirectories path) (s.files.makeDirectories path)⟩
  sink call := note (.called call) (s.sink call)
  spillDirectory := s.spillDirectory

@[simp]
theorem Surroundings.noted_spillDirectory (s : Surroundings (StateM σ)) :
    s.noted.spillDirectory = s.spillDirectory := rfl

/-- A step shows an answer that the surroundings can give. -/
def Surroundings.Gives (s : Surroundings (StateM σ)) : Step → Prop
  | .opened name items => ∃ w,((s.source name).run w).1 = items
  | .read path content => ∃ w,((s.files.read path).run w).1 = content
  | .wrote path content result => ∃ w,((s.files.write path content).run w).1 = result
  | .removed path result => ∃ w,((s.files.remove path).run w).1 = result
  | .madeDirectories path result => ∃ w,((s.files.makeDirectories path).run w).1 = result
  | .called call result => ∃ w,((s.sink call).run w).1 = result

/-- `p` does what `q` does and notes steps of one kind, which have a property together with the
result. -/
def Notes {α : Type} (kind : Step → Prop) (p : StateM (σ × List Step) α) (q : StateM σ α)
    (post : α → List Step → Prop) : Prop :=
  ∀ w log,∃ new,p.run (w,log) = ((q.run w).1,((q.run w).2,log++new)) ∧ (∀ step ∈ new,kind step) ∧
    post (q.run w).1 new

namespace Notes

variable {α β : Type} {kind : Step → Prop} {p : StateM (σ × List Step) α} {q : StateM σ α}
  {post : α → List Step → Prop}

theorem pure {a : α} (h : post a []) :
    Notes kind (Pure.pure a : StateM (σ × List Step) α) (Pure.pure a) post := by
  intro w log
  refine ⟨[],?_,by simp,h⟩
  rw [List.append_nil]
  rfl

theorem note {step : α → Step} {x : StateM σ α} (h : ∀ w,kind (step (x.run w).1)) :
    Notes kind (GlobeBins.note step x) x fun a new => new = [step a] :=
  fun w _ => ⟨_,rfl,List.forall_mem_singleton.mpr (h w),rfl⟩

theorem imp (h : Notes kind p q post) {post' : α → List Step → Prop}
    (weaker : ∀ a new,post a new → post' a new) : Notes kind p q post' := by
  intro w log
  obtain ⟨new,eq,all,holds⟩ := h w log
  exact ⟨new,eq,all,weaker _ _ holds⟩

theorem bind {f : α → StateM (σ × List Step) β} {g : α → StateM σ β}
    {post' : β → List Step → Prop} (first : Notes kind p q post)
    (second : ∀ a seen,post a seen → Notes kind (f a) (g a) fun b new => post' b (seen++new)) :
    Notes kind (p >>= f) (q >>= g) post' := by
  intro w log
  obtain ⟨seen,eq,all,holds⟩ := first w log
  obtain ⟨new,eq',all',holds'⟩ := second _ _ holds (q.run w).2 (log++seen)
  refine ⟨seen++new,?_,?_,holds'⟩
  · rw [StateT.run_bind,eq,← List.append_assoc]
    exact eq'
  · intro step h
    rcases List.mem_append.mp h with h | h
    · exact all step h
    · exact all' step h

/-- Work on a list is noted element by element. -/
theorem mapM {f : α → StateM (σ × List Step) β} {g : α → StateM σ β}
    {post : α → β → List Step → Prop} (l : List α) (each : ∀ a,Notes kind (f a) (g a) (post a)) :
    Notes kind (l.mapM f) (l.mapM g) fun bs new => ∃ parts : List (β × List Step),
      List.Forall₂ (fun a part => post a part.1 part.2) l parts ∧ bs = parts.map Prod.fst ∧
        new = parts.flatMap Prod.snd := by
  induction l with
  | nil => exact pure ⟨[],.nil,rfl,rfl⟩
  | cons a l ih =>
    rw [List.mapM_cons,List.mapM_cons]
    refine bind (each a) fun b seen first => bind ih ?_
    intro _ _ h
    obtain ⟨parts,rest,rfl,rfl⟩ := h
    exact pure ⟨(b,seen)::parts,.cons first rest,rfl,by simp⟩

end Notes

end

namespace Step

/-- Steps that only clean up. -/
def IsRemoval (step : Step) : Prop := ∃ path result,step = .removed path result

def opening? : Step → Option (String × Except Fault (List (Except Fault Observation)))
  | .opened name items => some (name,items)
  | _ => none

def call? : Step → Option (ProductCall × Except Fault Unit)
  | .called call result => some (call,result)
  | _ => none

end Step

/-- The partitions that were opened, and what was in them. -/
def openings (log : List Step) : List (String × Except Fault (List (Except Fault Observation))) :=
  log.filterMap Step.opening?

/-- The calls that were made, and how they ended. -/
def calls (log : List Step) : List (ProductCall × Except Fault Unit) := log.filterMap Step.call?

@[simp]
theorem openings_append (a b : List Step) : openings (a++b) = openings a++openings b :=
  List.filterMap_append

@[simp]
theorem calls_append (a b : List Step) : calls (a++b) = calls a++calls b := List.filterMap_append

theorem calls_called (call : ProductCall) (result : Except Fault Unit) (log : List Step) :
    calls (.called call result::log) = (call,result)::calls log := rfl

theorem openings_eq_nil {steps : List Step} (h : ∀ step ∈ steps,step.opening? = none) :
    openings steps = [] := List.filterMap_eq_nil_iff.mpr h

theorem calls_eq_nil {steps : List Step} (h : ∀ step ∈ steps,step.call? = none) :
    calls steps = [] := List.filterMap_eq_nil_iff.mpr h

/-- Cleaning up shows in no other way. -/
theorem removals_silent {steps : List Step} (h : ∀ step ∈ steps,step.IsRemoval) :
    openings steps = [] ∧ calls steps = [] := by
  refine ⟨openings_eq_nil fun step hs => ?_,calls_eq_nil fun step hs => ?_⟩
  · obtain ⟨_,_,rfl⟩ := h step hs
    rfl
  · obtain ⟨_,_,rfl⟩ := h step hs
    rfl

namespace ProductCall

/-- Calls are made in order, and none behind one that fails. -/
inductive Performed : List ProductCall → Except Fault Unit → List Step → Prop
  | done : Performed [] (.ok ()) []
  | failed (c : ProductCall) (cs : List ProductCall) (f : Fault) :
    Performed (c::cs) (.error f) [.called c (.error f)]
  | next (c : ProductCall) {cs : List ProductCall} {result : Except Fault Unit}
    {steps : List Step} : Performed cs result steps →
      Performed (c::cs) result (.called c (.ok ())::steps)

theorem Performed.steps {cs : List ProductCall} {result : Except Fault Unit}
    {steps : List Step} (h : Performed cs result steps) :
    ∀ step ∈ steps,∃ c r,step = .called c r := by
  induction h with
  | done => simp
  | failed c cs f => simp
  | next c _ ih => simpa using ih

theorem Performed.accepted {cs : List ProductCall} {result : Except Fault Unit}
    {steps : List Step} (h : Performed cs result steps) (all : ∀ c ∈ calls steps,c.2 = .ok ()) :
    result = .ok () := by
  induction h with
  | done => rfl
  | failed c cs f =>
    have ok := all (c,.error f) (by simp [calls_called])
    cases ok
  | next c _ ih => exact ih fun d hd => all d (by rw [calls_called]; exact List.mem_cons_of_mem _ hd)

theorem Performed.whole {cs : List ProductCall} {result : Except Fault Unit} {steps : List Step}
    (h : Performed cs result steps) (ok : result = .ok ()) :
    calls steps = cs.map fun c => (c,.ok ()) := by
  induction h with
  | done => rfl
  | failed => cases ok
  | next c _ ih =>
    rw [calls_called,ih ok]
    rfl

/-- The calls that are made are the first ones of those that were to be made. -/
theorem Performed.made {cs : List ProductCall} {result : Except Fault Unit} {steps : List Step}
    (h : Performed cs result steps) : (calls steps).map Prod.fst <+: cs := by
  induction h with
  | done => exact List.nil_prefix
  | failed c cs f => exact ⟨cs,rfl⟩
  | next c _ ih =>
    rw [calls_called,List.map_cons]
    exact List.cons_prefix_cons.mpr ⟨rfl,ih⟩

/-- The call that fails is the last one, and its fault the result. -/
theorem Performed.cut {cs : List ProductCall} {result : Except Fault Unit} {steps : List Step}
    (h : Performed cs result steps) {k : Nat} {c : ProductCall} {f : Fault}
    (failed : (calls steps)[k]? = some (c,.error f)) :
    (calls steps).map Prod.fst = cs.take (k+1) ∧ result = .error f := by
  induction h generalizing k with
  | done => cases failed
  | failed d cs g =>
    cases k with
    | zero =>
      cases failed
      exact ⟨rfl,rfl⟩
    | succ k => cases failed
  | next d _ ih =>
    cases k with
    | zero => cases failed
    | succ k =>
      obtain ⟨eq,result⟩ := ih failed
      rw [calls_called,List.map_cons,eq,List.take_succ_cons]
      exact ⟨rfl,result⟩

theorem perform_notes {σ : Type} (s : Surroundings (StateM σ)) (cs : List ProductCall) :
    Notes s.Gives (perform s.noted.sink cs) (perform s.sink cs) (Performed cs) := by
  induction cs with
  | nil => exact .pure .done
  | cons c cs ih =>
    refine .bind (.note fun w => ⟨w,rfl⟩) ?_
    intro h _ eq
    subst eq
    obtain f | _ := h
    · exact .pure (.failed c cs f)
    · exact ih.imp fun _ _ rest => .next c rest

end ProductCall

namespace Job

section

variable (job : Job) (directory : Option String)

/-- How one partition is binned and spilled. -/
inductive Binned (id : Nat) (name : String) :
    Except Fault SpilledPartition × List Event → List Step → Prop
  | refused {items : Except Fault (List (Except Fault Observation))} {f : Fault} :
    items >>= job.binPartition = .error f →
      Binned id name (.error f,[.failed]) [.opened name items]
  | unencoded {items : Except Fault (List (Except Fault Observation))}
    {bins : List (SpatialBin Binary32)} {counts : PassCounts} {f : Fault} :
    items >>= job.binPartition = .ok (bins,counts) → job.spatialCodec.encodeSpatial bins = .error f →
      Binned id name (.error f,[.partition (UInt64.ofNat counts.observations)
        (UInt64.ofNat counts.skipped) (UInt64.ofNat counts.bins)]) [.opened name items]
  | inMemory {items : Except Fault (List (Except Fault Observation))}
    {bins : List (SpatialBin Binary32)} {counts : PassCounts} {content : Bytes} :
    items >>= job.binPartition = .ok (bins,counts) →
      job.spatialCodec.encodeSpatial bins = .ok content → directory = none →
      Binned id name (.ok ⟨id,.memory content,counts⟩,[.partition
        (UInt64.ofNat counts.observations) (UInt64.ofNat counts.skipped)
        (UInt64.ofNat counts.bins)]) [.opened name items]
  | onFile {items : Except Fault (List (Except Fault Observation))}
    {bins : List (SpatialBin Binary32)} {counts : PassCounts} {content : Bytes} {d : String} :
    items >>= job.binPartition = .ok (bins,counts) →
      job.spatialCodec.encodeSpatial bins = .ok content → directory = some d →
      Binned id name (.ok ⟨id,.file (spillPath d job.id id),counts⟩,[.partition
        (UInt64.ofNat counts.observations) (UInt64.ofNat counts.skipped)
        (UInt64.ofNat counts.bins)])
        [.opened name items,.wrote (spillPath d job.id id) content (.ok ())]
  | unspilled {items : Except Fault (List (Except Fault Observation))}
    {bins : List (SpatialBin Binary32)} {counts : PassCounts} {content : Bytes} {d : String}
    {f : IoFailure} :
    items >>= job.binPartition = .ok (bins,counts) →
      job.spatialCodec.encodeSpatial bins = .ok content → directory = some d →
      Binned id name (.error (.io f),[.partition (UInt64.ofNat counts.observations)
        (UInt64.ofNat counts.skipped) (UInt64.ofNat counts.bins)])
        [.opened name items,.wrote (spillPath d job.id id) content (.error f)]

/-- What a spill gives when it is read back; a file is removed then. -/
inductive Given : Spill → Except Fault Bytes → List Step → Prop
  | memory (content : Bytes) : Given (.memory content) (.ok content) []
  | file (path : String) (content : Except IoFailure Bytes) (result : Except IoFailure Unit) :
    Given (.file path) (content.mapError .io) [.read path content,.removed path result]

/-- How spills are read back, up to the first that cannot be used. -/
inductive Recovered :
    List SpilledPartition → Except Fault (List (SourceRecords (SpatialBin Binary32))) →
      List Step → Prop
  | done : Recovered [] (.ok []) []
  | failed {p : SpilledPartition} {ps : List SpilledPartition} {given : Except Fault Bytes}
    {f : Fault} {steps removed : List Step} : Given p.spill given steps →
      given >>= job.spatialCodec.decodeSpatial = .error f → (∀ step ∈ removed,step.IsRemoval) →
      Recovered (p::ps) (.error f) (steps++removed)
  | next {p : SpilledPartition} {ps : List SpilledPartition} {given : Except Fault Bytes}
    {bins : List (SpatialBin Binary32)}
    {rest : Except Fault (List (SourceRecords (SpatialBin Binary32)))} {steps more : List Step} :
    Given p.spill given steps → given >>= job.spatialCodec.decodeSpatial = .ok bins →
      Recovered ps rest more →
      Recovered (p::ps) (rest.map (⟨p.id,bins⟩::·)) (steps++more)

/-- What a run that ended well has counted. -/
def summary (spilled : List SpilledPartition) (temporal : List (List (TemporalBin Binary32)))
    (partitions : List (List (RegionBin Binary32))) : Summary :=
  ⟨spilled.length,(spilled.map (·.counts.observations)).sum,(spilled.map (·.counts.skipped)).sum,
    (spilled.map (·.counts.bins)).sum,(temporal.map List.length).sum,
    (partitions.map List.length).sum,job.regions.length⟩

/-- How the passes go after all partitions were spilled. -/
inductive Passed (spilled : List SpilledPartition) : Outcome → List Step → Prop
  | unrecovered {f : Fault} {steps : List Step} : job.Recovered spilled (.error f) steps →
    Passed spilled ⟨.error f,[]⟩ steps
  | uncopied {sources : List (SourceRecords (SpatialBin Binary32))} {f : Fault}
    {steps : List Step} : job.Recovered spilled (.ok sources) steps →
      job.regionPass (job.temporalPass sources) = .error f →
      Passed spilled ⟨.error f,[.bins "temporal"
        (UInt64.ofNat ((job.temporalPass sources).map List.length).sum)]⟩ steps
  | formatted {sources : List (SourceRecords (SpatialBin Binary32))}
    {partitions : List (List (RegionBin Binary32))} {written : Except Fault Unit}
    {steps calls : List Step} : job.Recovered spilled (.ok sources) steps →
      job.regionPass (job.temporalPass sources) = .ok partitions →
      ProductCall.Performed (job.productCalls partitions) written calls →
      Passed spilled ⟨written.map fun _ => job.summary spilled (job.temporalPass sources) partitions,
        [.bins "temporal" (UInt64.ofNat ((job.temporalPass sources).map List.length).sum),
          .bins "region" (UInt64.ofNat (partitions.map List.length).sum)]⟩ (steps++calls)

/-- A partition with its number, and the steps noted for it. -/
abbrev Part := (Nat × Except Fault SpilledPartition × List Event) × List Step

/-- Results in the order of the partitions. -/
def results (parts : List Part) : List (Except Fault SpilledPartition) :=
  ((parts.map Prod.fst).mergeSort fun a b => a.1 ≤ b.1).map fun o => o.2.1

/-- How a whole run goes, over partitions that are binned in the order given. -/
inductive Ran (order : List (Nat × String)) : Outcome → List Step → Prop
  | failed {parts : List Part} {f : Fault} {removed : List Step} :
    List.Forall₂ (fun p part => part.1.1 = p.1 ∧ job.Binned directory p.1 p.2 part.1.2 part.2)
      order parts → firstFault? (results parts) = some f → (∀ step ∈ removed,step.IsRemoval) →
      Ran order ⟨.error f,parts.flatMap fun part => part.1.2.2⟩ (parts.flatMap Prod.snd++removed)
  | passed {parts : List Part} {outcome : Outcome} {steps : List Step} :
    List.Forall₂ (fun p part => part.1.1 = p.1 ∧ job.Binned directory p.1 p.2 part.1.2 part.2)
      order parts → firstFault? (results parts) = none →
      job.Passed (successes (results parts)) outcome steps →
      Ran order ⟨outcome.result,(parts.flatMap fun part => part.1.2.2)++outcome.events⟩
        (parts.flatMap Prod.snd++steps)

end

section

variable {job : Job} {directory : Option String}

theorem Binned.opens {id : Nat} {name : String}
    {o : Except Fault SpilledPartition × List Event} {steps : List Step}
    (h : job.Binned directory id name o steps) : ∃ items,openings steps = [(name,items)] := by
  cases h <;> exact ⟨_,rfl⟩

theorem Binned.silent {id : Nat} {name : String}
    {o : Except Fault SpilledPartition × List Event} {steps : List Step}
    (h : job.Binned directory id name o steps) : calls steps = [] := by
  cases h <;> rfl

theorem binned_calls {order : List (Nat × String)} {parts : List Part}
    (h : List.Forall₂ (fun p part => part.1.1 = p.1 ∧ job.Binned directory p.1 p.2 part.1.2 part.2)
      order parts) : calls (parts.flatMap Prod.snd) = [] := by
  induction h with
  | nil => rfl
  | cons first _ ih => rw [List.flatMap_cons,calls_append,first.2.silent,ih,List.nil_append]

/-- Partitions with numbers of their own can be told by them. -/
theorem binned_positions {order : List (Nat × String)} {parts : List Part}
    (h : List.Forall₂ (fun p part => part.1.1 = p.1 ∧ job.Binned directory p.1 p.2 part.1.2 part.2)
      order parts) (distinct : (order.map Prod.fst).Nodup) :
    ∃ part : Nat → Part,parts = order.map (fun p => part p.1) ∧ ∀ p ∈ order,
      (part p.1).1.1 = p.1 ∧ job.Binned directory p.1 p.2 (part p.1).1.2 (part p.1).2 := by
  induction h with
  | nil => exact ⟨fun _ => ((0,.error .overflow,[]),[]),rfl,by simp⟩
  | @cons p first order parts here _ ih =>
    rw [List.map_cons,List.nodup_cons] at distinct
    obtain ⟨part,rfl,each⟩ := ih distinct.2
    have other : ∀ q ∈ order,Function.update part p.1 first q.1 = part q.1 := fun q hq =>
      Function.update_of_ne (fun same => distinct.1 (List.mem_map.mpr ⟨q,hq,same⟩)) _ _
    refine ⟨Function.update part p.1 first,?_,?_⟩
    · rw [List.map_cons,Function.update_self]
      exact congrArg _ (List.map_congr_left fun q hq => (other q hq).symm)
    · intro q hq
      rcases List.mem_cons.mp hq with rfl | hq
      · rw [Function.update_self]
        exact here
      · rw [other q hq]
        exact each q hq

/-- Reading back does nothing else. -/
theorem Recovered.steps {ps : List SpilledPartition}
    {result : Except Fault (List (SourceRecords (SpatialBin Binary32)))} {steps : List Step}
    (h : job.Recovered ps result steps) :
    ∀ step ∈ steps,(∃ path content,step = .read path content) ∨ step.IsRemoval := by
  have given : ∀ {spill content steps},Given spill content steps →
      ∀ step ∈ steps,(∃ path content,step = .read path content) ∨ step.IsRemoval := by
    intro spill content steps h
    cases h with
    | memory => simp
    | file => simp [Step.IsRemoval]
  induction h with
  | done => simp
  | failed first _ removals =>
    intro step h
    rcases List.mem_append.mp h with h | h
    · exact given first step h
    · exact .inr (removals step h)
  | next first _ _ ih =>
    intro step h
    rcases List.mem_append.mp h with h | h
    · exact given first step h
    · exact ih step h

theorem Recovered.silent {ps : List SpilledPartition}
    {result : Except Fault (List (SourceRecords (SpatialBin Binary32)))} {steps : List Step}
    (h : job.Recovered ps result steps) : calls steps = [] := by
  apply calls_eq_nil
  intro step hs
  rcases h.steps step hs with ⟨_,_,rfl⟩ | ⟨_,_,rfl⟩ <;> rfl

/-- The passes open nothing and write nothing. -/
theorem Passed.steps {ps : List SpilledPartition} {outcome : Outcome} {steps : List Step}
    (h : job.Passed ps outcome steps) : ∀ step ∈ steps,(∃ path content,step = .read path content) ∨
      step.IsRemoval ∨ ∃ c r,step = .called c r := by
  have reading : ∀ {result steps},job.Recovered ps result steps → ∀ step ∈ steps,
      (∃ path content,step = .read path content) ∨ step.IsRemoval ∨ ∃ c r,step = .called c r :=
    fun back step hs => (back.steps step hs).imp_right .inl
  cases h with
  | unrecovered back => exact reading back
  | uncopied back => exact reading back
  | formatted back _ performed =>
    intro step h
    rcases List.mem_append.mp h with h | h
    · exact reading back step h
    · exact .inr (.inr (performed.steps step h))

theorem Passed.opens {ps : List SpilledPartition} {outcome : Outcome} {steps : List Step}
    (h : job.Passed ps outcome steps) : openings steps = [] := by
  apply openings_eq_nil
  intro step hs
  rcases h.steps step hs with ⟨_,_,rfl⟩ | ⟨_,_,rfl⟩ | ⟨_,_,rfl⟩ <;> rfl

end

section

variable {σ : Type} (job : Job) (s : Surroundings (StateM σ))

theorem spill_notes (id : Nat) (content : Bytes) :
    Notes s.Gives (job.spill s.noted id content) (job.spill s id content) fun spilled new =>
      s.spillDirectory = none ∧ spilled = .ok (.memory content) ∧ new = [] ∨
      ∃ d result,s.spillDirectory = some d ∧
        spilled = (result.mapError .io).map (fun _ => .file (spillPath d job.id id)) ∧
        new = [.wrote (spillPath d job.id id) content result] := by
  simp only [spill,Surroundings.noted_spillDirectory]
  cases s.spillDirectory with
  | none => exact .pure (.inl ⟨rfl,rfl,rfl⟩)
  | some d =>
    refine .bind (.note fun w => ⟨w,rfl⟩) ?_
    intro h _ eq
    subst eq
    obtain f | _ := h
    · exact .pure (.inr ⟨d,.error f,rfl,rfl,rfl⟩)
    · exact .pure (.inr ⟨d,.ok (),rfl,rfl,rfl⟩)

theorem runPartition_notes (id : Nat) (name : String) :
    Notes s.Gives (job.runPartition s.noted id name) (job.runPartition s id name)
      (job.Binned s.spillDirectory id name) := by
  unfold runPartition
  refine .bind (.note fun w => ⟨w,rfl⟩) ?_
  intro items _ eq
  subst eq
  cases binned : items >>= job.binPartition with
  | error f => exact .pure (.refused binned)
  | ok result =>
    obtain ⟨bins,counts⟩ := result
    cases encoded : job.spatialCodec.encodeSpatial bins with
    | error f =>
      simp only [encoded]
      exact .pure (.unencoded binned encoded)
    | ok content =>
      simp only [encoded]
      refine .bind (spill_notes job s id content) ?_
      intro _ _ h
      obtain ⟨place,rfl,rfl⟩ | ⟨d,f | _,place,rfl,rfl⟩ := h
      · exact .pure (.inMemory binned encoded place)
      · exact .pure (.unspilled binned encoded place)
      · exact .pure (.onFile binned encoded place)

theorem remove_notes (path : String) :
    Notes s.Gives (discard s.noted (.file path)) (discard s (.file path))
      fun _ new => ∃ result,new = [.removed path result] := by
  refine .bind (.note fun w => ⟨w,rfl⟩) ?_
  intro result _ eq
  subst eq
  exact .pure ⟨result,rfl⟩

theorem discard_notes (spill : Spill) : Notes s.Gives (discard s.noted spill) (discard s spill)
    fun _ new => ∀ step ∈ new,step.IsRemoval := by
  cases spill with
  | memory content => exact .pure (by simp)
  | file path =>
    refine (remove_notes s path).imp ?_
    intro _ _ h
    obtain ⟨result,rfl⟩ := h
    simp [Step.IsRemoval]

theorem discards_notes (ps : List SpilledPartition) :
    Notes s.Gives (ps.forM fun p => discard s.noted p.spill) (ps.forM fun p => discard s p.spill)
      fun _ new => ∀ step ∈ new,step.IsRemoval := by
  induction ps with
  | nil => exact .pure (by simp)
  | cons p ps ih =>
    refine .bind (discard_notes s p.spill) fun _ seen first => ih.imp fun _ new rest => ?_
    intro step h
    rcases List.mem_append.mp h with h | h
    · exact first step h
    · exact rest step h

theorem recover_notes (spill : Spill) :
    Notes s.Gives (recover s.noted spill) (recover s spill) (Given spill) := by
  cases spill with
  | memory content => exact .pure (.memory content)
  | file path =>
    refine .bind (.note fun w => ⟨w,rfl⟩) ?_
    intro content _ eq
    subst eq
    refine .bind (remove_notes s path) ?_
    intro _ _ h
    obtain ⟨result,rfl⟩ := h
    exact .pure (.file path content result)

theorem recoverAll_notes (ps : List SpilledPartition) :
    Notes s.Gives (job.recoverAll s.noted ps) (job.recoverAll s ps) (job.Recovered ps) := by
  induction ps with
  | nil => exact .pure .done
  | cons p ps ih =>
    refine .bind (recover_notes s p.spill) fun given steps first => ?_
    cases decoded : given >>= job.spatialCodec.decodeSpatial with
    | error f =>
      refine .bind (discards_notes s ps) fun _ removed all => ?_
      exact .pure (by simpa using .failed first decoded all)
    | ok bins =>
      refine .bind ih ?_
      intro h more others
      obtain f | rest := h
      · exact .pure (by simpa using .next first decoded others)
      · exact .pure (by simpa using .next first decoded others)

theorem runPasses_notes (spilled : List SpilledPartition) :
    Notes s.Gives (job.runPasses s.noted spilled) (job.runPasses s spilled) (job.Passed spilled) := by
  refine .bind (recoverAll_notes job s spilled) ?_
  intro h steps recovered
  obtain f | sources := h
  · exact .pure (by simpa using .unrecovered recovered)
  · cases copied : job.regionPass (job.temporalPass sources) with
    | error f =>
      simp only [copied]
      exact .pure (by simpa using .uncopied recovered copied)
    | ok partitions =>
      simp only [copied]
      refine .bind (ProductCall.perform_notes s _) fun written calls performed => ?_
      exact .pure (by simpa using .formatted recovered copied performed)

/-- Every run goes so, and noting it does not change it. -/
theorem runNumbered_notes (order : List (Nat × String)) :
    Notes s.Gives (job.runNumbered s.noted order) (job.runNumbered s order)
      (job.Ran s.spillDirectory order) := by
  have each : ∀ p : Nat × String,
      Notes s.Gives (do return (p.1,← job.runPartition s.noted p.1 p.2))
        (do return (p.1,← job.runPartition s p.1 p.2))
        fun o new => o.1 = p.1 ∧ job.Binned s.spillDirectory p.1 p.2 o.2 new := by
    intro p
    refine .bind (runPartition_notes job s p.1 p.2) fun o steps binned => ?_
    exact .pure (by simpa using binned)
  refine .bind (.mapM order each) ?_
  intro _ _ h
  obtain ⟨parts,binned,rfl,rfl⟩ := h
  have events : (parts.map Prod.fst).flatMap (fun o => o.2.2) =
      parts.flatMap fun part => part.1.2.2 := List.flatMap_map _ _ _
  have sorted : ((parts.map Prod.fst).mergeSort fun a b => a.1 ≤ b.1).map (fun o => o.2.1) =
      results parts := rfl
  simp only [events,sorted]
  cases first : firstFault? (results parts) with
  | some f =>
    refine .bind (discards_notes s _) fun _ removed all => ?_
    exact .pure (by simpa using .failed binned first all)
  | none =>
    refine .bind (runPasses_notes job s _) fun outcome steps passed => ?_
    exact .pure (by simpa using .passed binned first passed)

/-- The notes of a run. -/
def log (order : List (Nat × String)) (w : σ) : List Step :=
  ((job.runNumbered s.noted order).run (w,[])).2.2

def outcome (order : List (Nat × String)) (w : σ) : Outcome := ((job.runNumbered s order).run w).1

theorem ran (order : List (Nat × String)) (w : σ) :
    job.Ran s.spillDirectory order (job.outcome s order w) (job.log s order w) := by
  obtain ⟨new,eq,_,goes⟩ := runNumbered_notes job s order w []
  rw [log,eq]
  exact goes

theorem log_given (order : List (Nat × String)) (w : σ) : ∀ step ∈ job.log s order w,s.Gives step := by
  obtain ⟨new,eq,given,_⟩ := runNumbered_notes job s order w []
  rw [log,eq]
  exact given

end

end Job

end GlobeBins

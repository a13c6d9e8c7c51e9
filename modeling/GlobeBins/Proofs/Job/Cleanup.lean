import GlobeBins.Disk
import GlobeBins.Proofs.Job.Calls

namespace GlobeBins

/-- From states with `P` a program ends with a result and a state with `Q`. -/
def Ends {τ α : Type} (P : τ → Prop) (x : StateM τ α) (Q : α → τ → Prop) : Prop :=
  ∀ w,P w → Q (x.run w).1 (x.run w).2

namespace Ends

variable {τ α β : Type} {P : τ → Prop} {x : StateM τ α} {Q : α → τ → Prop}

theorem pure {a : α} (h : ∀ w,P w → Q a w) : Ends P (Pure.pure a) Q := h

theorem bind {f : α → StateM τ β} {R : β → τ → Prop} (first : Ends P x Q)
    (second : ∀ a,Ends (Q a) (f a) R) : Ends P (x >>= f) R :=
  fun w h => second _ _ (first w h)

theorem before {P' : τ → Prop} (weaker : ∀ w,P' w → P w) (h : Ends P x Q) : Ends P' x Q :=
  fun w now => h w (weaker w now)

theorem note {σ : Type} {x : StateM σ α} {step : α → Step} {P : σ × List Step → Prop}
    {Q : α → σ × List Step → Prop}
    (h : ∀ w log,P (w,log) → Q (x.run w).1 ((x.run w).2,log++[step (x.run w).1])) :
    Ends P (GlobeBins.note step x) Q := fun w before => h w.1 w.2 before

end Ends

/-- A write to the file failed. -/
def Cut (log : List Step) (path : String) : Prop := ∃ content f,.wrote path content (.error f) ∈ log

/-- The file was written to its end. -/
def Whole (log : List Step) (path : String) : Prop := ∃ content,.wrote path content (.ok ()) ∈ log

/-- Removing the file was tried. -/
def Removed (log : List Step) (path : String) : Prop := ∃ result,.removed path result ∈ log

section

variable {log : List Step} {step : Step} {path : String}

theorem cut_snoc : Cut (log++[step]) path ↔
    Cut log path ∨ ∃ content f,step = .wrote path content (.error f) := by
  simp only [Cut,List.mem_append,List.mem_singleton,exists_or,eq_comm (b := step)]

theorem whole_snoc : Whole (log++[step]) path ↔
    Whole log path ∨ ∃ content,step = .wrote path content (.ok ()) := by
  simp only [Whole,List.mem_append,List.mem_singleton,exists_or,eq_comm (b := step)]

theorem removed_snoc : Removed (log++[step]) path ↔
    Removed log path ∨ ∃ result,step = .removed path result := by
  simp only [Removed,List.mem_append,List.mem_singleton,exists_or,eq_comm (b := step)]

end

section

variable {σ : Type}

/-- Files of a job's spills come into being only where they are written, and a file that is removed is
gone. -/
structure Job.Keeps (job : Job) (s : Surroundings (StateM σ)) (there : σ → String → Prop) : Prop where
  source {name : String} {w : σ} {p : String} : there ((s.source name).run w).2 p → there w p
  read {path : String} {w : σ} {p : String} : there ((s.files.read path).run w).2 p → there w p
  write {d : String} {i : Nat} {content : Bytes} {w : σ} {p : String} :
    s.spillDirectory = some d →
      there ((s.files.write (spillPath d job.id i) content).run w).2 p →
        p = spillPath d job.id i ∨ there w p
  remove {path : String} {w : σ} {p : String} :
    there ((s.files.remove path).run w).2 p → p ≠ path ∧ there w p
  sink {call : ProductCall} {w : σ} {p : String} : there ((s.sink call).run w).2 p → there w p

/-- Files written whole are still in use or were removed, and no other was. A file that is there is in
use, or it was there at first or left by a failed write, and was not written whole. -/
structure Accounted (there : σ → String → Prop) (first : σ) (used : List String)
    (now : σ × List Step) : Prop where
  whole (p : String) : Whole now.2 p ↔ p ∈ used ∨ Removed now.2 p
  left (p : String) : there now.1 p → p ∈ used ∨ (there first p ∨ Cut now.2 p) ∧ ¬Whole now.2 p

namespace Accounted

variable {there : σ → String → Prop} {first w w' : σ} {used : List String} {log : List Step}
  {path : String}

theorem congr {used' : List String} {now : σ × List Step} (h : Accounted there first used now)
    (same : ∀ p,p ∈ used ↔ p ∈ used') : Accounted there first used' now where
  whole p := (h.whole p).trans (or_congr_left (same p))
  left p here := (h.left p here).imp_left (same p).mp

/-- What neither writes nor removes makes no file. -/
theorem other {step : Step} (h : Accounted there first used (w,log))
    (fewer : ∀ p,there w' p → there w p) (unwritten : ∀ p content result,step ≠ .wrote p content result)
    (kept : ∀ p result,step ≠ .removed p result) :
    Accounted there first used (w',log++[step]) where
  whole p := by
    simp only [whole_snoc,removed_snoc,unwritten,kept,exists_false,or_false]
    exact h.whole p
  left p here := by
    simp only [whole_snoc,cut_snoc,unwritten,exists_false,or_false]
    exact h.left p (fewer p here)

theorem removed {result : Except IoFailure Unit} (h : Accounted there first (path::used) (w,log))
    (gone : ∀ p,there w' p → p ≠ path ∧ there w p) :
    Accounted there first used (w',log++[.removed path result]) where
  whole p := by
    have before := h.whole p
    simp only [whole_snoc,removed_snoc,reduceCtorEq,exists_false,or_false,Step.removed.injEq,
      exists_and_left,exists_eq',and_true,List.mem_cons] at before ⊢
    rw [before,eq_comm (a := p)]
    exact or_assoc.trans or_rotate
  left p here := by
    obtain ⟨other,before⟩ := gone p here
    simp only [whole_snoc,cut_snoc,reduceCtorEq,exists_false,or_false]
    exact (h.left p before).imp_left fun mem => (List.mem_cons.mp mem).resolve_left other

/-- A file that is written for the first time is in use, unless the write fails. -/
theorem wrote {content : Bytes} {result : Except IoFailure Unit}
    (h : Accounted there first used (w,log)) (new : ¬Whole log path)
    (made : ∀ p,there w' p → p = path ∨ there w p) :
    Accounted there first (if result = .ok () then path::used else used)
      (w',log++[.wrote path content result]) := by
  obtain f | _ := result
  · rw [if_neg nofun]
    refine ⟨fun p => ?_,fun p here => ?_⟩
    · simpa [whole_snoc,removed_snoc] using h.whole p
    · rcases made p here with rfl | before
      · refine .inr ⟨.inr ⟨content,f,by simp⟩,?_⟩
        simpa [whole_snoc] using new
      · refine (h.left p before).imp_right fun ⟨known,fresh⟩ => ⟨known.imp_right ?_,?_⟩
        · exact fun cut => cut_snoc.mpr (.inl cut)
        · simpa [whole_snoc] using fresh
  · rw [if_pos rfl]
    refine ⟨fun p => ?_,fun p here => ?_⟩
    · have before := h.whole p
      simp [whole_snoc,removed_snoc,before,eq_comm (a := path),or_comm,or_left_comm]
    · by_cases same : p = path
      · exact .inl (List.mem_cons.mpr (.inl same))
      · have before := h.left p ((made p here).resolve_left same)
        refine before.imp (List.mem_cons_of_mem path) fun ⟨known,fresh⟩ => ⟨known.imp_right ?_,?_⟩
        · exact fun cut => cut_snoc.mpr (.inl cut)
        · rw [whole_snoc]
          rintro (whole | ⟨_,eq⟩)
          · exact fresh whole
          · cases eq
            exact same rfl

end Accounted

end

namespace Spill

def files : Spill → List String
  | .memory _ => []
  | .file path => [path]

end Spill

namespace Job

/-- Files of the spills that were made. -/
def spillFiles (ps : List SpilledPartition) : List String := ps.flatMap fun p => p.spill.files

section

variable {σ : Type} {job : Job} {s : Surroundings (StateM σ)} {there : σ → String → Prop}
  {first : σ} {used : List String}

theorem discard_ends (keeps : job.Keeps s there) (spill : Spill) :
    Ends (Accounted there first (spill.files++used)) (discard s.noted spill)
      fun _ => Accounted there first used := by
  cases spill with
  | memory content => exact .pure fun _ h => h
  | file path =>
    exact .bind (.note fun w log h => h.removed fun p here => keeps.remove here)
      fun _ => .pure fun _ h => h

theorem discards_ends (keeps : job.Keeps s there) (ps : List SpilledPartition) :
    Ends (Accounted there first (spillFiles ps++used)) (ps.forM fun p => discard s.noted p.spill)
      fun _ => Accounted there first used := by
  induction ps with
  | nil => exact .pure fun _ h => h
  | cons p ps ih =>
    rw [spillFiles,List.flatMap_cons,List.append_assoc]
    exact .bind (discard_ends keeps p.spill) fun _ => ih

theorem recover_ends (keeps : job.Keeps s there) (spill : Spill) :
    Ends (Accounted there first (spill.files++used)) (recover s.noted spill)
      fun _ => Accounted there first used := by
  cases spill with
  | memory content => exact .pure fun _ h => h
  | file path =>
    have read : Ends (Accounted there first ((Spill.file path).files++used)) (s.noted.files.read path)
        fun _ => Accounted there first ((Spill.file path).files++used) :=
      .note fun w log h => h.other (fun p here => keeps.read here) nofun nofun
    exact .bind read fun _ => .bind (discard_ends keeps (.file path)) fun _ => .pure fun _ h => h

/-- Reading back removes every spill, whether it comes to its end or not. -/
theorem recoverAll_ends (keeps : job.Keeps s there) (ps : List SpilledPartition) :
    Ends (Accounted there first (spillFiles ps++used)) (job.recoverAll s.noted ps)
      fun _ => Accounted there first used := by
  induction ps with
  | nil => exact .pure fun _ h => h
  | cons p ps ih =>
    rw [spillFiles,List.flatMap_cons,List.append_assoc]
    refine .bind (recover_ends keeps p.spill) fun given => ?_
    cases decoded : given >>= job.spatialCodec.decodeSpatial with
    | error f =>
      simp only
      exact .bind (discards_ends keeps ps) fun _ => .pure fun _ h => h
    | ok bins =>
      simp only
      refine .bind ih fun rest => ?_
      cases rest <;> exact .pure fun _ h => h

theorem perform_ends (keeps : job.Keeps s there) (cs : List ProductCall) :
    Ends (Accounted there first used) (ProductCall.perform s.noted.sink cs)
      fun _ => Accounted there first used := by
  induction cs with
  | nil => exact .pure fun _ h => h
  | cons c cs ih =>
    have call : Ends (Accounted there first used) (s.noted.sink c)
        fun _ => Accounted there first used :=
      .note fun w log h => h.other (fun p here => keeps.sink here) nofun nofun
    refine .bind call fun result => ?_
    obtain f | _ := result
    · exact .pure fun _ h => h
    · exact ih

theorem runPasses_ends (keeps : job.Keeps s there) (ps : List SpilledPartition) :
    Ends (Accounted there first (spillFiles ps++used)) (job.runPasses s.noted ps)
      fun _ => Accounted there first used := by
  refine .bind (recoverAll_ends keeps ps) fun sources => ?_
  obtain f | sources := sources
  · exact .pure fun _ h => h
  · cases copied : job.regionPass (job.temporalPass sources) with
    | error f =>
      simp only [copied]
      exact .pure fun _ h => h
    | ok partitions =>
      simp only [copied]
      exact .bind (perform_ends keeps _) fun _ => .pure fun _ h => h

/-- Files are written for some partitions only. -/
def WritesFor (job : Job) (directory : Option String) (ids : List Nat) (log : List Step) : Prop :=
  ∀ path content result,.wrote path content result ∈ log →
    ∃ d i,directory = some d ∧ i ∈ ids ∧ path = spillPath d job.id i

theorem WritesFor.more {directory : Option String} {ids : List Nat} {log : List Step} (id : Nat)
    (h : job.WritesFor directory ids log) : job.WritesFor directory (id::ids) log := by
  intro path content result mem
  obtain ⟨d,i,place,hi,eq⟩ := h path content result mem
  exact ⟨d,i,place,List.mem_cons_of_mem _ hi,eq⟩

/-- Some partitions have been binned: the files in use and the files written are theirs. -/
structure Binning (job : Job) (there : σ → String → Prop) (first : σ) (directory : Option String)
    (ids : List Nat) (used : List String) (now : σ × List Step) : Prop where
  accounted : Accounted there first used now
  writes : job.WritesFor directory ids now.2

theorem Binning.more {directory : Option String} {ids : List Nat} {now : σ × List Step} (id : Nat)
    (h : job.Binning there first directory ids used now) :
    job.Binning there first directory (id::ids) used now := ⟨h.accounted,h.writes.more id⟩

def madeFiles : Except Fault Spill → List String
  | .ok spill => spill.files
  | .error _ => []

/-- A partition has its file in use if it is spilled, and nothing of its own if it is not. -/
theorem spill_ends (keeps : job.Keeps s there) {ids : List Nat} {id : Nat} (content : Bytes)
    (new : id ∉ ids) :
    Ends (job.Binning there first s.spillDirectory ids used) (job.spill s.noted id content)
      fun spilled => job.Binning there first s.spillDirectory (id::ids) (madeFiles spilled++used) := by
  simp only [spill,Surroundings.noted_spillDirectory]
  cases place : s.spillDirectory with
  | none => exact .pure fun _ h => h.more id
  | some d =>
    have write : Ends (job.Binning there first (some d) ids used)
        (s.noted.files.write (spillPath d job.id id) content)
        fun result => job.Binning there first (some d) (id::ids)
          (if result = .ok () then spillPath d job.id id::used else used) := by
      refine .note fun w log h => ⟨h.accounted.wrote ?_ fun p here => keeps.write place here,?_⟩
      · -- the file would be that of an earlier partition
        rintro ⟨earlier,mem⟩
        obtain ⟨d',i,same,hi,eq⟩ := h.writes _ _ _ mem
        cases same
        exact new (spillPath_injective eq ▸ hi)
      · intro path content result mem
        rcases List.mem_append.mp mem with mem | mem
        · exact h.writes.more id path content result mem
        · cases List.mem_singleton.mp mem
          exact ⟨d,id,rfl,List.mem_cons_self,rfl⟩
    refine .bind write fun result => ?_
    obtain f | _ := result
    · exact .pure fun _ h => h
    · exact .pure fun _ h => h

/-- Files of a partition, if it was spilled. -/
def resultFiles : Except Fault SpilledPartition → List String
  | .ok p => p.spill.files
  | .error _ => []

theorem runPartition_ends (keeps : job.Keeps s there) {ids : List Nat} {id : Nat} (name : String)
    (new : id ∉ ids) :
    Ends (job.Binning there first s.spillDirectory ids used) (job.runPartition s.noted id name)
      fun o => job.Binning there first s.spillDirectory (id::ids) (resultFiles o.1++used) := by
  have opening : Ends (job.Binning there first s.spillDirectory ids used) (s.noted.source name)
      fun _ => job.Binning there first s.spillDirectory ids used := by
    refine .note fun w log h =>
      ⟨h.accounted.other (fun p here => keeps.source here) nofun nofun,?_⟩
    intro path content result mem
    simp only [List.mem_append,List.mem_singleton,reduceCtorEq,or_false] at mem
    exact h.writes path content result mem
  refine .bind opening fun items => ?_
  cases binned : items >>= job.binPartition with
  | error f => exact .pure fun _ h => h.more id
  | ok result =>
    obtain ⟨bins,counts⟩ := result
    cases encoded : job.spatialCodec.encodeSpatial bins with
    | error f =>
      simp only [encoded]
      exact .pure fun _ h => h.more id
    | ok content =>
      simp only [encoded]
      refine .bind (spill_ends keeps content new) fun spilled => ?_
      cases spilled <;> exact .pure fun _ h => h

/-- All partitions together have the files of those that were spilled in use. -/
theorem partitions_ends (keeps : job.Keeps s there) {ids : List Nat} (order : List (Nat × String))
    (distinct : (order.map Prod.fst).Nodup) (new : ∀ p ∈ order,p.1 ∉ ids) :
    Ends (job.Binning there first s.spillDirectory ids used)
      (order.mapM fun p => do return (p.1,← job.runPartition s.noted p.1 p.2))
      fun outcomes => Accounted there first ((outcomes.flatMap fun o => resultFiles o.2.1)++used) := by
  induction order generalizing ids used with
  | nil => exact .pure fun _ h => h.accounted
  | cons p order ih =>
    rw [List.map_cons,List.nodup_cons] at distinct
    obtain ⟨here,later⟩ := List.forall_mem_cons.mp new
    have fresh : ∀ q ∈ order,q.1 ∉ p.1::ids := by
      intro q hq mem
      rcases List.mem_cons.mp mem with same | mem
      · exact distinct.1 (List.mem_map.mpr ⟨q,hq,same⟩)
      · exact later q hq mem
    have one : Ends (job.Binning there first s.spillDirectory ids used)
        (do return (p.1,← job.runPartition s.noted p.1 p.2))
        fun (o : Nat × Except Fault SpilledPartition × List Event) =>
          job.Binning there first s.spillDirectory (p.1::ids) (resultFiles o.2.1++used) :=
      .bind (runPartition_ends keeps p.2 here) fun o => .pure fun _ h => h
    rw [List.mapM_cons]
    refine .bind one fun o => .bind (ih distinct.2 fresh) fun os => .pure fun now h => ?_
    exact Accounted.congr h fun p => by
      simp only [List.flatMap_cons,List.mem_append,or_left_comm,or_assoc]

/-- A run has no file in use when it ends, however it ends. -/
theorem runNumbered_ends (keeps : job.Keeps s there) {order : List (Nat × String)}
    (distinct : (order.map Prod.fst).Nodup) :
    Ends (job.Binning there first s.spillDirectory [] []) (job.runNumbered s.noted order)
      fun _ => Accounted there first [] := by
  refine .bind (partitions_ends keeps order distinct fun _ _ => List.not_mem_nil) fun outcomes => ?_
  simp only
  generalize found : ((outcomes.mergeSort fun a b => a.1 ≤ b.1).map fun o => o.2.1) = results
  -- sorting by number and leaving out the failed partitions changes no file that is in use
  have same : ∀ p,p ∈ (outcomes.flatMap fun o => resultFiles o.2.1)++[] ↔
      p ∈ spillFiles (successes results)++[] := by
    intro p
    subst found
    simp only [List.append_nil,List.mem_flatMap,spillFiles,successes,List.mem_filterMap,List.mem_map,
      List.mem_mergeSort]
    constructor
    · rintro ⟨o,mem,here⟩
      cases made : o.2.1 with
      | error f => simp [made,resultFiles] at here
      | ok spilled =>
        rw [made] at here
        exact ⟨spilled,⟨_,⟨o,mem,rfl⟩,by rw [made]⟩,here⟩
    · rintro ⟨spilled,⟨_,⟨o,mem,rfl⟩,eq⟩,here⟩
      refine ⟨o,mem,?_⟩
      cases made : o.2.1 with
      | error f => simp [made] at eq
      | ok _ =>
        rw [made] at eq
        cases eq
        exact here
  refine .before (fun now h => h.congr same) ?_
  cases firstFault? results with
  | some f => exact .bind (discards_ends keeps _) fun _ => .pure fun _ h => h
  | none => exact .bind (runPasses_ends keeps _) fun _ => .pure fun _ h => h

end

end Job

/-- Files as mere names, of which some cannot be written to their end. -/
def Surroundings.ofNames (fits : String → Bool) : Surroundings (StateM (List String)) where
  source _ := pure (Job.readable [])
  files := ⟨fun _ => pure (.ok []),
    fun path _ ps => (if fits path then .ok () else .error .storageFull,path::ps),
    fun path ps => (.ok (),ps.filter (· ≠ path)),fun _ => pure (.ok ())⟩
  sink _ := pure (.ok ())
  spillDirectory := some "spill"

theorem ofNames_keeps (fits : String → Bool) (job : Job) :
    job.Keeps (.ofNames fits) fun ps p => p ∈ ps where
  source h := h
  read h := h
  write _ h := List.mem_cons.mp h
  remove h := by
    obtain ⟨mem,other⟩ := List.mem_filter.mp h
    exact ⟨by simpa using other,mem⟩
  sink h := h

theorem Job.spillContent_ne_nil {job : Job} {os : List Observation} {o : Observation} (mem : o ∈ os)
    (admitted : job.scheme.admits o = true) : job.spillContent os ≠ [] := by
  have cell : job.scheme.inCell os (job.scheme.cellOf o) ≠ [] :=
    List.ne_nil_of_mem (Scheme.mem_inCell.mpr ⟨mem,admitted,rfl⟩)
  have bin := SpatialPass.mem_run.mpr ⟨_,cell,rfl⟩
  intro empty
  have record := List.flatMap_eq_nil_iff.mp empty _ bin
  have index := congrArg List.length record
  simp [Codec.spatialRecord,Codec.record,Codec.int64_length] at index

/-- Partitions of some observations, spilled to a disk. -/
def Surroundings.onDisk (os : List Observation) : Surroundings (StateM Disk) where
  source _ := pure (Job.readable os)
  files := Disk.files
  sink _ := pure (.ok ())
  spillDirectory := some "spill"

/-- The only partition cannot be spilled: the disk stays as the write leaves it. -/
theorem onDisk_unspilled {job : Job} {os : List Observation} {d d' : Disk} {f : IoFailure}
    (writable : job.Writable os)
    (wrote : d.write (Job.spillPath "spill" job.id 0) (job.spillContent os) = (.error f,d')) :
    ∃ events,(job.runNumbered (.onDisk os) [(0,"a")]).run d = (⟨.error (.io f),events⟩,d') := by
  have result : (Disk.files.write (Job.spillPath "spill" job.id 0) (job.spillContent os)).run d =
      (.error f,d') := wrote
  have spilled : (job.spill (.onDisk os) 0 (job.spillContent os)).run d = (.error (.io f),d') := by
    simp only [Job.spill,Surroundings.onDisk,StateT.run_bind,result]
    rfl
  have part : ∃ events,(job.runPartition (.onDisk os) 0 "a").run d =
      ((.error (.io f),events),d') := by
    have opened : (Surroundings.onDisk os).source "a" = pure (Job.readable os) := rfl
    simp only [Job.runPartition,opened,pure_bind,Job.bind_readable,Job.writable_iff.mp writable,
      StateT.run_bind,spilled]
    exact ⟨_,rfl⟩
  obtain ⟨events,part⟩ := part
  have outcomes : ([(0,"a")].mapM fun p : Nat × String => do
      return (p.1,← job.runPartition (.onDisk os) p.1 p.2)).run d =
      pure ([(0,.error (.io f),events)],d') := by
    simp only [List.mapM_cons,List.mapM_nil,StateT.run_bind,part]
    rfl
  rw [Job.runNumbered,StateT.run_bind,outcomes,pure_bind]
  simp only [List.mergeSort_singleton]
  exact ⟨_,rfl⟩

/-- A disk with an empty directory and no room for any content. -/
def Disk.full : Disk := ⟨[(["spill"],.directory)],[],some 0⟩

/-- Spills have files of their own. A run removes the files that it has written whole and no others,
however it ends. Such a file is gone then; one that is left was there before or is what a failed write
has made. -/
theorem run_removes_whole {job : Job} {σ : Type} (s : Surroundings (StateM σ))
    {there : σ → String → Prop} (keeps : job.Keeps s there) {names : List String}
    {order : List (Nat × String)} (perm : order.Perm (Job.numbered names)) (w : σ) :
    (∀ directory,Function.Injective (Job.spillPath directory job.id)) ∧
      (∀ path,Removed (job.log s order w) path ↔ Whole (job.log s order w) path) ∧
      ∀ path,there ((job.runNumbered s order).run w).2 path →
        (there w path ∨ Cut (job.log s order w) path) ∧ ¬Whole (job.log s order w) path := by
  have distinct := Job.numbers_nodup perm
  have start : Accounted there w [] (w,[]) :=
    ⟨fun p => by simp [Whole,Removed],fun p here => .inr ⟨.inl here,by simp [Whole]⟩⟩
  have writes : job.WritesFor s.spillDirectory [] ([] : List Step) := fun _ _ _ mem => by cases mem
  have ended : Accounted there w [] ((job.runNumbered s.noted order).run (w,[])).2 :=
    Job.runNumbered_ends keeps distinct (w,[]) ⟨start,writes⟩
  have state : ((job.runNumbered s.noted order).run (w,[])).2 =
      (((job.runNumbered s order).run w).2,job.log s order w) := by
    obtain ⟨new,eq,_⟩ := job.runNumbered_notes s order w []
    rw [Job.log,eq]
  rw [state] at ended
  refine ⟨fun _ _ _ same => Job.spillPath_injective same,?_,?_⟩
  · intro path
    simpa using (ended.whole path).symm
  · intro path here
    exact (ended.left path here).resolve_left List.not_mem_nil

/-- Two partitions, the first of which cannot be spilled whole. -/
theorem run_removes_whole_two : ∃ job,Job.make "plain" .plain = .ok job ∧
    ∃ s : Surroundings (StateM (List String)),s = .ofNames (· ≠ Job.spillPath "spill" job.id 0) ∧
      (∀ path,Removed (job.log s [(1,"b"),(0,"a")] []) path ↔
        Whole (job.log s [(1,"b"),(0,"a")] []) path) ∧
      ∀ path ∈ ((job.runNumbered s [(1,"b"),(0,"a")]).run []).2,
        Cut (job.log s [(1,"b"),(0,"a")] []) path ∧ ¬Whole (job.log s [(1,"b"),(0,"a")] []) path := by
  obtain ⟨job,made⟩ := Settings.plain_made
  have perm : [(1,"b"),(0,"a")].Perm (Job.numbered ["a","b"]) := .swap _ _ _
  obtain ⟨_,removed,left⟩ := run_removes_whole (.ofNames (· ≠ Job.spillPath "spill" job.id 0))
    (ofNames_keeps _ job) perm []
  refine ⟨job,made,_,rfl,removed,fun path mem => ?_⟩
  obtain ⟨known,fresh⟩ := left path mem
  exact ⟨known.resolve_left List.not_mem_nil,fresh⟩

/-- A spill that fails for want of room leaves its file, which is not removed though it can be. -/
theorem full_disk_leaves_spill : ∃ job,Job.make "plain" .plain = .ok job ∧
    let ran := (job.runNumbered (.onDisk [⟨0,0,0,[1]⟩]) [(0,"a")]).run .full
    ran.1.result = .error (.io .storageFull) ∧
      Disk.full.read (Job.spillPath "spill" job.id 0) = .error .notFound ∧
      ran.2.read (Job.spillPath "spill" job.id 0) = .ok [] ∧
      (ran.2.remove (Job.spillPath "spill" job.id 0)).1 = .ok () := by
  obtain ⟨job,made⟩ := Settings.plain_made
  have parts := Job.made made
  have ensemble := Settings.plain_ensemble parts
  have path : Job.spillPath "spill" job.id 0 = "spill/plain-00000.bin" := by
    rw [parts.id_eq]
    decide +kernel
  have admitted : job.scheme.admits ⟨0,0,0,[1]⟩ = true := by
    rw [Scheme.admits,parts.vars_eq,ensemble]
    decide +kernel
  have long : ¬(job.spillContent [⟨0,0,0,[1]⟩]).length ≤ 0 := by
    rw [Nat.le_zero,List.length_eq_zero_iff]
    exact Job.spillContent_ne_nil (List.mem_singleton_self _) admitted
  have wrote : Disk.full.write (Job.spillPath "spill" job.id 0) (job.spillContent [⟨0,0,0,[1]⟩]) =
      (.error .storageFull,Disk.full.put ["spill","plain-00000.bin"] (.file [])) := by
    have place : Disk.full.place "spill/plain-00000.bin" =
        .ok (.entry ["spill","plain-00000.bin"] false) := by decide +kernel
    have free : ¬(false || Disk.full.lookup? ["spill","plain-00000.bin"] = some .directory) := by
      decide +kernel
    rw [path,Disk.write,place]
    simp only [if_neg free]
    simp only [Disk.store,Disk.full,Nat.zero_sub,if_neg long,List.take_zero]
  obtain ⟨events,run⟩ := onDisk_unspilled
    (Job.writable_of_few (by rw [ensemble]; decide) _) wrote
  refine ⟨job,made,?_⟩
  simp only [run,path]
  decide +kernel

end GlobeBins

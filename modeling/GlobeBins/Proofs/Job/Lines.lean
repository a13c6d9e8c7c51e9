import GlobeBins.Proofs.Job.Failure
import GlobeBins.Proofs.Job.Layout
import GlobeBins.Proofs.Text.Lines

namespace GlobeBins

namespace Observation

/-- What a line means: nothing if it is blank, or an observation. -/
inductive Means : Bytes → Option Observation → Prop
  | nothing {line : Bytes} {s : String} : Text.ofBytes? line = some s → Text.blank s = true →
    Means line none
  | observed {line : Bytes} {s : String} {o : Observation} : Text.ofBytes? line = some s →
    Text.blank s = false → Json.decode reader s = .ok o → Means line (some o)

/-- What is wrong with the line of a number. -/
inductive Wrong (partition : String) (number : Nat) : Bytes → Fault → Prop
  | encoding {line : Bytes} : Text.ofBytes? line = none →
    Wrong partition number line (.partition partition .invalidData)
  | content {line : Bytes} {s : String} {p : Json.Problem} : Text.ofBytes? line = some s →
    Text.blank s = false → Json.decode reader s = .error p →
    Wrong partition number line (.observation partition number p)

section

variable {partition : String} {number : Nat} {line content : Bytes} {f : Fault}
  {o : Option Observation} {before after ls : List Bytes} {found : List (Option Observation)}

theorem means_or_wrong (partition : String) (number : Nat) (line : Bytes) :
    (∃ o,Means line o) ∨ ∃ f,Wrong partition number line f := by
  cases text : Text.ofBytes? line with
  | none => exact .inr ⟨_,.encoding text⟩
  | some s =>
    cases blank : Text.blank s with
    | true => exact .inl ⟨_,.nothing text blank⟩
    | false =>
      cases decoded : Json.decode reader s with
      | ok o => exact .inl ⟨_,.observed text blank decoded⟩
      | error p => exact .inr ⟨_,.content text blank decoded⟩

theorem Means.ofLine? (h : Means line o) : ofLine? partition number line = o.map .ok := by
  cases h with
  | nothing text blank => simp [Observation.ofLine?,text,blank]
  | observed text blank decoded =>
    simp [Observation.ofLine?,text,blank,decoded,Except.mapError]

theorem Wrong.ofLine? (h : Wrong partition number line f) :
    ofLine? partition number line = some (.error f) := by
  cases h with
  | encoding text => simp [Observation.ofLine?,text]
  | content text blank decoded =>
    simp [Observation.ofLine?,text,blank,decoded,Except.mapError]

/-- Lines that mean something are read, and the numbers go on behind them. -/
theorem ofLines_means (partition : String) (h : List.Forall₂ Means ls found) (number : Nat)
    (after : List Bytes) :
    ((ls++after).zipIdx number).filterMap (fun p => Observation.ofLine? partition p.2 p.1) =
      found.reduceOption.map .ok++(after.zipIdx (number+ls.length)).filterMap
        fun p => Observation.ofLine? partition p.2 p.1 := by
  induction h generalizing number with
  | nil => simp
  | @cons line o ls found means _ ih =>
    have next : number+1+ls.length = number+(line::ls).length := by
      rw [List.length_cons]
      omega
    rw [List.cons_append,List.zipIdx_cons,List.filterMap_cons,means.ofLine?,ih,next]
    cases o <;> rfl

/-- A partition is read up to the first line that is wrong, if there is any. -/
theorem lines_mean_or_wrong (partition : String) (ls : List Bytes) :
    (∃ found,List.Forall₂ Means ls found) ∨ ∃ before line after found f,ls = before++line::after ∧
      List.Forall₂ Means before found ∧ Wrong partition (before.length+1) line f := by
  induction ls using List.reverseRecOn with
  | nil => exact .inl ⟨[],.nil⟩
  | append_singleton ls last ih =>
    rcases ih with ⟨found,means⟩ | ⟨before,line,after,found,f,rfl,means,wrong⟩
    · rcases means_or_wrong partition (ls.length+1) last with ⟨o,here⟩ | ⟨f,here⟩
      · exact .inl ⟨found++[o],List.rel_append means (.cons here .nil)⟩
      · exact .inr ⟨ls,last,[],found,f,rfl,means,here⟩
    · exact .inr ⟨before,line,after++[last],found,f,by simp,means,wrong⟩

end

end Observation

open Observation

/-- A partition that is not binned leaves the files as they were once it was read. -/
theorem Job.runPartition_failed {job : Job} {name : String} {content : Bytes} {f : Fault}
    (failed : job.binPartition (ofContent name content) = .error f) {σ : Type}
    {files : Files (StateM σ)} {w w' : σ} (opened : (files.read name).run w = (.ok content,w'))
    (sink : ProductSink (StateM σ)) (directory : Option String) (id : Nat) :
    (job.runPartition ⟨.ofFiles files,files,sink,directory⟩ id name).run w =
      ((.error f,[.failed]),w') := by
  have source : ((Source.ofFiles files) name).run w = pure (.ok (ofContent name content),w') := by
    rw [Source.ofFiles,StateT.run_bind,opened]
    rfl
  have binned : Except.ok (ofContent name content) >>= job.binPartition = .error f := failed
  rw [runPartition,StateT.run_bind,source,pure_bind]
  simp only [binned]
  rfl

/-- The lines of a partition are binned if each of them means something. Otherwise the first one that
does not is told with its number, and nothing is done with the lines before it. -/
theorem Job.partition_lines (job : Job) (name : String) (content : Bytes) :
    ∃ ls,Text.Lined content ls ∧
      (∀ found,List.Forall₂ Means ls found → job.binPartition (ofContent name content) =
        .ok (SpatialPass.run job.scheme found.reduceOption)) ∧
      (∀ before line after found f,ls = before++line::after → List.Forall₂ Means before found →
        Wrong name (before.length+1) line f → job.binPartition (ofContent name content) = .error f ∧
          ∀ {σ : Type} (files : Files (StateM σ)) (sink : ProductSink (StateM σ))
            (directory : Option String) (id : Nat) (w w' : σ),
            (files.read name).run w = (.ok content,w') →
              (job.runPartition ⟨.ofFiles files,files,sink,directory⟩ id name).run w =
                ((.error f,[.failed]),w')) ∧
      ((∃ found,List.Forall₂ Means ls found) ∨ ∃ before line after found f,
        ls = before++line::after ∧ List.Forall₂ Means before found ∧
          Wrong name (before.length+1) line f) := by
  refine ⟨Text.lines content,Text.lined_iff.mpr rfl,?_,?_,lines_mean_or_wrong name _⟩
  · intro found means
    have items : ofContent name content = found.reduceOption.map .ok := by
      have read := ofLines_means name means 1 []
      rw [List.append_nil,List.zipIdx_nil,List.filterMap_nil,List.append_nil] at read
      exact read
    rw [items]
    exact bind_readable found.reduceOption
  · intro before line after found f cut means wrong
    have failed : job.binPartition (ofContent name content) = .error f := by
      have read := ofLines_means name means 1 (line::after)
      rw [← cut,List.zipIdx_cons,Nat.add_comm 1,List.filterMap_cons,wrong.ofLine?] at read
      rw [binPartition,ofContent,read,mapM_items_error.mpr ⟨_,_,rfl⟩]
      rfl
    exact ⟨failed,fun files sink directory id w w' opened =>
      runPartition_failed failed opened sink directory id⟩

/-- Behind a blank line stands an object without a time, and then a line that is no text. -/
theorem Job.partition_lines_second :
    let content : Bytes := [32,13,10,123,125,10,255]
    let fault : Fault := .observation "a" 2 (.missingField "time")
    Text.Lined content [[32],[123,125],[255]] ∧ Means [32] none ∧ Wrong "a" 2 [123,125] fault ∧
      (layered 1).binPartition (ofContent "a" content) = .error fault := by
  intro content fault
  have cut : Text.lines content = [[32],[123,125],[255]] := by decide
  have space : Text.toBytes " " = [32] := Text.toBytes_ofList [' ']
  have braces : Text.toBytes "\x7b\x7d" = [123,125] := Text.toBytes_ofList ['\x7b','\x7d']
  have blank : Means [32] none := by
    rw [← space]
    exact .nothing (Text.ofBytes?_toBytes _) (by decide)
  have timeless : Wrong "a" 2 [123,125] fault := by
    rw [← braces]
    exact .content (Text.ofBytes?_toBytes _) (by decide) rfl
  obtain ⟨ls,lined,_,fails,_⟩ := (layered 1).partition_lines "a" content
  obtain rfl := (Text.lined_iff.mp lined).symm.trans cut
  obtain ⟨failed,_⟩ := fails [[32]] [123,125] [[255]] [none] fault rfl (.cons blank .nil) timeless
  exact ⟨lined,blank,timeless,failed⟩

end GlobeBins

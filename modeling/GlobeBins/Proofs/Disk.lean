import GlobeBins.Disk
import Mathlib

namespace GlobeBins

section

variable {σ : Type}

/-- What reading a file gives. -/
def Files.content (files : Files (StateM σ)) (path : String) (w : σ) : Except IoFailure Bytes :=
  ((files.read path).run w).1

/-- Files that never fail at some paths: what is written is read, and the other paths keep what they
have. -/
structure Files.Reliable (files : Files (StateM σ)) (fine : σ → Prop) (usable : String → Prop) :
    Prop where
  write {path : String} {w : σ} (content : Bytes) : fine w → usable path →
    ∃ w',(files.write path content).run w = (.ok (),w') ∧ fine w' ∧
      files.content path w' = .ok content ∧
      ∀ other,usable other → other ≠ path → files.content other w' = files.content other w

end

theorem Files.join_injective {directory : String} {a b : String}
    (h : Files.join directory a = Files.join directory b) : a = b := by
  unfold Files.join at h
  split at h
  · exact h
  · exact (String.append_right_inj _).mp h
  · exact (String.append_right_inj _).mp h

namespace Disk

/-- A name that is no step to a directory. -/
structure PlainName (path : String) : Prop where
  one : names path = [path]
  step : path ≠ "" ∧ path ≠ "." ∧ path ≠ ".."
  short : path.utf8ByteSize ≤ maxName

/-- There is room for everything, and the working directory has only files. -/
structure Roomy (d : Disk) : Prop where
  unlimited : d.limit = none
  files (name : String) : d.lookup? (d.working++[name]) ≠ some .directory

/-- What reading an entry gives. -/
def contentOf : Option DiskEntry → Except IoFailure Bytes
  | some (.file content) => .ok content
  | some .directory => .error .isADirectory
  | none => .error .notFound

variable {d : Disk} {path : String}

theorem lookup?_put_of_ne {p q : DiskPath} (e : DiskEntry) (h : q ≠ p) :
    (d.put p e).lookup? q = d.lookup? q := by
  by_cases root : q = []
  · rw [lookup?,lookup?,if_pos root,if_pos root]
  · rw [lookup?,lookup?,if_neg root,if_neg root,put,List.find?_append,List.find?_filter]
    have last : List.find? (fun x => x.1 == q) [(p,e)] = none := by simp [h.symm]
    rw [last,Option.or_none]
    congr 2
    funext x
    by_cases same : x.1 = q
    · simp [same,h]
    · simp [same]

/-- A name that is one step and stays below. -/
theorem walk_one {here : DiskPath} {file : String} (step : file ≠ "" ∧ file ≠ "." ∧ file ≠ "..") :
    d.walk here [file] = if maxName < file.utf8ByteSize then .error .invalidFilename
      else .ok (.entry (here++[file]) false) := by
  obtain ⟨some,still,up⟩ := step
  rw [walk,if_neg (by simp [some,still]),if_neg up]
  rfl

/-- A plain name is an entry of the working directory. -/
theorem PlainName.place (h : PlainName path) : d.place path = .ok (.entry (d.working++[path]) false) := by
  have short := h.short
  have fits : ¬maxPath < path.utf8ByteSize := by
    unfold maxPath maxName at *
    omega
  have origin : d.origin [path] = d.working := by
    rw [Disk.origin,if_neg (by simpa using h.step.1)]
  rw [Disk.place,if_neg h.step.1,if_neg fits,h.one,origin,walk_one h.step,if_neg (by omega)]

theorem PlainName.read (h : PlainName path) :
    d.read path = contentOf (d.lookup? (d.working++[path])) := by
  rw [Disk.read,h.place]
  rfl

theorem Roomy.put (roomy : d.Roomy) (content : Bytes) :
    (d.put (d.working++[path]) (.file content)).Roomy := by
  refine ⟨roomy.unlimited,fun name => ?_⟩
  change (d.put (d.working++[path]) (.file content)).lookup? (d.working++[name]) ≠ _
  by_cases same : name = path
  · rw [same,lookup?_put _ _ _ (by simp)]
    nofun
  · rw [lookup?_put_of_ne _ (by simpa using same)]
    exact roomy.files name

end Disk

end GlobeBins

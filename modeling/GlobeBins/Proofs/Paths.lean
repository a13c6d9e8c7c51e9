import GlobeBins.Proofs.Disk

namespace GlobeBins

namespace Disk

/-- Names of a path that go somewhere. -/
def steps (path : String) : List String := (names path).filter fun name => name ≠ "" ∧ name ≠ "."

/-- The place is a directory that is there. -/
inductive Stands (d : Disk) (here : DiskPath) : Place → Prop
  | directory : Stands d here (.directory here)
  | entry (slash : Bool) : d.lookup? here = some .directory → Stands d here (.entry here slash)

/-- Names are joined to the path as names in a directory. The empty path leads nowhere, but to join names
to it is to begin at the working directory. -/
inductive Leads (d : Disk) (path : String) (here : DiskPath) : Prop
  | working : path = "" → here = d.working → Leads d path here
  | place {p : Place} : d.place path = .ok p → d.Stands here p → Leads d path here

variable {d : Disk} {directory file : String} {here there : DiskPath}

theorem namesFrom_append (reversed s t : List Char) :
    namesFrom reversed (s++ '/'::t) = namesFrom reversed s++namesFrom [] t := by
  induction s generalizing reversed with
  | nil => rfl
  | cons c s ih =>
    by_cases slash : c = '/'
    · simp [namesFrom,slash,ih]
    · simp [namesFrom,slash,ih]

theorem namesFrom_plain {s : List Char} (plain : '/' ∉ s) (reversed : List Char) :
    namesFrom reversed s = [String.ofList (reversed.reverse++s)] := by
  induction s generalizing reversed with
  | nil => simp [namesFrom]
  | cons c s ih =>
    obtain ⟨other,rest⟩ := not_or.mp (List.mem_cons.not.mp plain)
    rw [namesFrom,if_neg (Ne.symm other),ih rest]
    simp

/-- Without a slash a path is one name. -/
theorem names_plain (plain : '/' ∉ file.toList) : names file = [file] := by
  rw [names,namesFrom_plain plain]
  simp

theorem namesFrom_ne_nil (reversed s : List Char) : namesFrom reversed s ≠ [] := by
  induction s generalizing reversed with
  | nil => exact List.cons_ne_nil _ _
  | cons c s ih =>
    rw [namesFrom]
    split_ifs
    · exact List.cons_ne_nil _ _
    · exact ih _

theorem walk_blanks {blanks : List String} (blank : ∀ b ∈ blanks,b = "") (names : List String) :
    d.walk here (blanks++names) = d.walk here names := by
  induction blanks with
  | nil => rfl
  | cons b blanks ih =>
    obtain ⟨rfl,rest⟩ := List.forall_mem_cons.mp blank
    rw [List.cons_append,walk,if_pos (.inl rfl),ih rest]

section

variable (one : names file = [file]) (step : file ≠ "" ∧ file ≠ "." ∧ file ≠ "..")

section

include one

/-- A file's name stands behind all names of the directory but a last blank one. -/
theorem names_join (some : directory ≠ "") : ∃ way blanks,way ≠ [] ∧ names directory = way++blanks ∧
    names (Files.join directory file) = way++[file] ∧ ∀ b ∈ blanks,b = "" := by
  unfold Files.join
  split
  next none => exact absurd (String.toList_eq_nil_iff.mp (List.getLast?_eq_none_iff.mp none)) some
  next slash =>
    obtain ⟨front,eq⟩ := List.getLast?_eq_some_iff.mp slash
    refine ⟨namesFrom [] front,[""],namesFrom_ne_nil _ _,?_,?_,by simp⟩
    · rw [names,eq,namesFrom_append]
      rfl
    · rw [names,String.toList_append,eq,List.append_assoc,List.singleton_append,namesFrom_append,
        ← names,one]
  next =>
    refine ⟨names directory,[],namesFrom_ne_nil _ _,by simp,?_,by simp⟩
    have text : (directory++"/"++file).toList = directory.toList++ '/'::file.toList := by simp
    rw [names,text,namesFrom_append,← names,← names,one]

include step

/-- One step more than to the directory. -/
theorem steps_join (directory : String) :
    steps (Files.join directory file) = steps directory++[file] := by
  have last : [file].filter (fun name => decide (name ≠ "" ∧ name ≠ ".")) = [file] := by
    simp [step.1,step.2.1]
  by_cases none : directory = ""
  · subst none
    exact (congrArg _ one).trans last
  · obtain ⟨way,blanks,_,names,joined,blank⟩ := names_join one none
    have nothing : blanks.filter (fun name => decide (name ≠ "" ∧ name ≠ ".")) = [] := by
      rw [List.filter_eq_nil_iff]
      intro b mem
      simp [blank b mem]
    rw [steps,steps,names,joined,List.filter_append,List.filter_append,last,nothing,List.append_nil]

end

include step

/-- From where a way ends, a file is one step. -/
theorem walk_file {way blanks : List String} {p : Place} (blank : ∀ b ∈ blanks,b = "")
    (walked : d.walk here (way++blanks) = .ok p) (stands : d.Stands there p) :
    d.walk here (way++[file]) = d.walk there [file] := by
  induction way generalizing here with
  | nil =>
    rw [List.nil_append,← List.append_nil blanks,walk_blanks blank] at walked
    cases walked
    cases stands
    rfl
  | cons name rest ih =>
    have goes : (rest++[file]).all (fun name => name = "") = false := by simp [step.1]
    rw [List.cons_append,walk] at walked ⊢
    rw [goes,if_neg Bool.false_ne_true]
    split_ifs at walked ⊢ with still up long ends
    · exact ih walked
    · exact ih walked
    · -- here the way ends, at a directory
      cases walked
      cases stands with
      | entry _ found =>
        have rest_blank : ∀ b ∈ rest,b = "" := by
          have all : (∀ b ∈ rest,b = "") ∧ ∀ b ∈ blanks,b = "" := by
            simpa [List.forall_mem_append] using ends
          exact all.1
        simp only [found]
        exact walk_blanks rest_blank [file]
    · split at walked
      next => exact ih walked
      next => cases walked
      next => cases walked

/-- A file that is joined to a directory is an entry of that directory, or has a name that cannot be. -/
theorem place_join (one : names file = [file]) (leads : d.Leads directory here) :
    d.place (Files.join directory file) =
      if maxPath < (Files.join directory file).utf8ByteSize ∨ maxName < file.utf8ByteSize then
        .error .invalidFilename
      else .ok (.entry (here++[file]) false) := by
  have walked : d.walk (d.origin (names (Files.join directory file)))
      (names (Files.join directory file)) = d.walk here [file] := by
    cases leads with
    | working empty own =>
      have joined : Files.join directory file = file := by
        rw [empty]
        rfl
      have own' : d.origin [file] = d.working := if_neg (by simpa using step.1)
      rw [joined,one,own',own]
    | @place p placed stands =>
      unfold place at placed
      split_ifs at placed with none long
      obtain ⟨way,blanks,some,names,joined,blank⟩ := names_join one none
      have origin (behind : List String) : d.origin (way++behind) = d.origin way := by
        rw [Disk.origin,Disk.origin,List.head?_append_of_ne_nil _ some]
      rw [names,origin] at placed
      rw [joined,origin]
      exact walk_file step blank placed stands
  have some : Files.join directory file ≠ "" := by
    intro none
    have steps := steps_join one step directory
    rw [none] at steps
    simp [Disk.steps,Disk.names,namesFrom] at steps
  rw [place,if_neg some,walked,walk_one step]
  by_cases long : maxPath < (Files.join directory file).utf8ByteSize
  · rw [if_pos long,if_pos (.inl long)]
  · simp only [long,if_false,false_or]

end

end Disk

end GlobeBins

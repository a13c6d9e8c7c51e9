import GlobeBins.Product
import GlobeBins.Proofs.Json.Numbers
import GlobeBins.Proofs.Paths

namespace GlobeBins

namespace Product

/-- ASCII letters and digits, hyphens and underscores. -/
def Ordinary (c : Char) : Prop :=
  'A' ≤ c ∧ c ≤ 'Z' ∨ 'a' ≤ c ∧ c ≤ 'z' ∨ '0' ≤ c ∧ c ≤ '9' ∨ c = '-' ∨ c = '_'

/-- What stands in a file name for a character of a region's name. -/
def plained (c : Char) : Char := if isPlain c then c else '_'

variable {c : Char} {region other : Int32} {name name' : String}

theorem isPlain_iff : isPlain c = true ↔ Ordinary c := by
  have order (a b : Char) : a ≤ b ↔ b.val ≥ a.val := Iff.rfl
  simp only [isPlain,Char.isAlphanum,Char.isAlpha,Char.isUpper,Char.isLower,Char.isDigit,
    Bool.or_eq_true,Bool.and_eq_true,decide_eq_true_eq,beq_iff_eq,Ordinary,order,or_assoc]

theorem plained_ordinary (c : Char) : Ordinary (plained c) := by
  unfold plained
  split_ifs with plain
  · exact isPlain_iff.mp plain
  · exact .inr (.inr (.inr (.inr rfl)))

theorem renderInt_ordinary (n : Int) : ∀ c ∈ Json.renderInt n,Ordinary c := by
  have digits : ∀ c ∈ Nat.toDigits 10 n.natAbs,Ordinary c := by
    intro c mem
    have digit := (Text.digits_toDigits n.natAbs).digits c mem
    exact isPlain_iff.mp (by simp [isPlain,Char.isAlphanum,digit])
  unfold Json.renderInt
  split_ifs
  · exact List.forall_mem_cons.mpr ⟨.inr (.inr (.inr (.inl rfl))),digits⟩
  · exact digits

theorem fileName_toList : (fileName region name).toList =
    (Json.renderInt region.toInt++ '-'::name.toList.map plained)++".jsonl".toList := by
  rw [fileName,String.toList_append,String.toList_ofList]
  rfl

/-- A hyphen ends a number, so the number is known from the text. -/
theorem renderInt_cut {n m : Int} {s t : List Char}
    (h : Json.renderInt n++ '-'::s = Json.renderInt m++ '-'::t) : n = m ∧ s = t := by
  have stops (r : List Char) : Json.Stops Json.continues ('-'::r) := by
    rintro c ⟨rfl⟩
    decide
  have first := Json.numberFrom_renderInt n (stops s)
  rw [h,Json.numberFrom_renderInt m (stops t)] at first
  simp only [Option.some.injEq,Prod.mk.injEq,Json.Literal.mk.injEq,List.cons.injEq,decide_eq_decide]
    at first
  obtain ⟨⟨sign,size,_⟩,_,rest⟩ := first
  exact ⟨by omega,rest.symm⟩

theorem fileName_eq_iff : fileName region name = fileName other name' ↔
    region = other ∧ name.toList.map plained = name'.toList.map plained := by
  rw [← String.toList_inj,fileName_toList,fileName_toList,List.append_left_inj]
  constructor
  · intro same
    obtain ⟨number,rest⟩ := renderInt_cut same
    exact ⟨Int32.toInt_inj.mp number,rest⟩
  · rintro ⟨rfl,same⟩
    rw [same]

/-- Only the ending has a character of another kind. -/
theorem fileName_stem (region : Int32) (name : String) : ∃ stem : List Char,
    (fileName region name).toList = stem++".jsonl".toList ∧ ∀ c ∈ stem,Ordinary c := by
  refine ⟨_,fileName_toList,List.forall_mem_append.mpr ⟨renderInt_ordinary _,?_⟩⟩
  refine List.forall_mem_cons.mpr ⟨.inr (.inr (.inr (.inl rfl))),List.forall_mem_map.mpr ?_⟩
  exact fun c _ => plained_ordinary c

/-- A file name is one step of a path, and a step on. -/
theorem fileName_step (region : Int32) (name : String) :
    Disk.names (fileName region name) = [fileName region name] ∧ fileName region name ≠ "" ∧
      fileName region name ≠ "." ∧ fileName region name ≠ ".." := by
  obtain ⟨stem,text,ordinary⟩ := fileName_stem region name
  have slash : '/' ∉ (fileName region name).toList := by
    rw [text,List.mem_append,not_or]
    refine ⟨fun mem => ?_,by decide⟩
    have other : ¬Ordinary '/' := by
      unfold Ordinary
      decide
    exact other (ordinary _ mem)
  have long : 6 ≤ (fileName region name).toList.length := by
    rw [text,List.length_append]
    exact Nat.le_add_left _ _
  have apart {s : String} (short : s.toList.length < 6) : fileName region name ≠ s := by
    rintro rfl
    omega
  exact ⟨Disk.names_plain slash,apart (by decide),apart (by decide),apart (by decide)⟩

/-- Two names are the same only for one region, whatever the regions are called. A name has letters,
digits, hyphens, underscores and the point of its ending. Joined to a directory it stays one step behind
it: no two regions get one path, and wherever the directory is, the path is an entry of it, unless the
disk refuses it because it is too long. -/
theorem fileName_apart (region other : Int32) (name name' : String) :
    (fileName region name = fileName other name' ↔
      region = other ∧ name.toList.map plained = name'.toList.map plained) ∧
    (∃ stem : List Char,(fileName region name).toList = stem++".jsonl".toList ∧
      ∀ c ∈ stem,Ordinary c) ∧
    ∀ directory : String,
      (Files.join directory (fileName region name) = Files.join directory (fileName other name') →
        region = other) ∧
      Disk.steps (Files.join directory (fileName region name)) =
        Disk.steps directory++[fileName region name] ∧
      ∀ (d : Disk) (here : DiskPath),d.Leads directory here →
        d.place (Files.join directory (fileName region name)) =
          if Disk.maxPath < (Files.join directory (fileName region name)).utf8ByteSize ∨
            Disk.maxName < (fileName region name).utf8ByteSize then .error .invalidFilename
          else .ok (.entry (here++[fileName region name]) false) := by
  obtain ⟨one,step⟩ := fileName_step region name
  refine ⟨fileName_eq_iff,fileName_stem region name,fun directory => ⟨fun same => ?_,?_,?_⟩⟩
  · exact (fileName_eq_iff.mp (Files.join_injective same)).1
  · exact Disk.steps_join one step directory
  · exact fun d here leads => Disk.place_join step one leads

/-- Regions 1 and -1 of one name, which goes up and has a letter that is not plain, in a directory
that is there. -/
theorem fileName_apart_signs :
    let d : Disk := ⟨[(["out"],.directory)],[],none⟩
    d.Leads "out/" ["out"] ∧ fileName 1 "../é" ≠ fileName (-1) "../é" ∧
    Files.join "out/" (fileName 1 "../é") ≠ Files.join "out/" (fileName (-1) "../é") ∧
    d.place (Files.join "out/" (fileName 1 "../é")) = .ok (.entry ["out","1-____.jsonl"] false) := by
  intro d
  have leads : d.Leads "out/" ["out"] := .place rfl (.entry true rfl)
  have other : (1 : Int32) ≠ -1 := by decide
  obtain ⟨same,_,joined⟩ := fileName_apart 1 (-1) "../é" "../é"
  obtain ⟨apart,_,place⟩ := joined "out/"
  refine ⟨leads,fun h => other (same.mp h).1,fun h => other (apart h),?_⟩
  rw [place d ["out"] leads,if_neg (by decide)]
  rfl

end Product

end GlobeBins

import Mathlib
import GlobeBins.Text.Lines

namespace GlobeBins.Text

/-- A line without one carriage return at its end. -/
def dropReturn (line : Bytes) : Bytes := if line.getLast? = some 13 then line.dropLast else line

/-- Each line feed ends a line, and what follows the last one is a line if it is not empty. -/
inductive Lined : Bytes → List Bytes → Prop
  | nothing : Lined [] []
  | last {line : Bytes} : line ≠ [] → 10 ∉ line → Lined line [line]
  | ended {line rest : Bytes} {ls : List Bytes} : 10 ∉ line → Lined rest ls →
    Lined (line++10::rest) (dropReturn line::ls)

section

variable {line rest reversed content : Bytes} {ls : List Bytes}

theorem dropReturn_concat (line : Bytes) (b : UInt8) :
    dropReturn (line++[b]) = if b = 13 then line else line++[b] := by
  simp [dropReturn]

theorem linesFrom_feed (reversed rest : Bytes) :
    linesFrom reversed (10::rest) = dropReturn reversed.reverse::linesFrom [] rest := by
  cases reversed with
  | nil => rfl
  | cons b line =>
    rw [List.reverse_cons,dropReturn_concat]
    split
    next return_ =>
      subst return_
      rw [linesFrom.eq_2]
    next plain =>
      rw [linesFrom.eq_3 _ _ fun _ eq => plain (List.cons.inj eq).1,List.reverse_cons]

theorem linesFrom_ended (h : 10 ∉ line) : linesFrom reversed (line++10::rest) =
    dropReturn (reversed.reverse++line)::linesFrom [] rest := by
  induction line generalizing reversed with
  | nil => rw [List.nil_append,linesFrom_feed,List.append_nil]
  | cons b line ih =>
    obtain ⟨here,later⟩ := List.ne_and_not_mem_of_not_mem_cons h
    rw [List.cons_append,linesFrom.eq_4 _ _ _ fun eq => here eq.symm,ih later,List.reverse_cons,
      List.append_assoc,List.singleton_append]

theorem linesFrom_last (h : 10 ∉ line) (some : reversed.reverse++line ≠ []) :
    linesFrom reversed line = [reversed.reverse++line] := by
  induction line generalizing reversed with
  | nil =>
    rw [List.append_nil] at some ⊢
    rw [linesFrom,if_neg]
    simpa using some
  | cons b line ih =>
    obtain ⟨here,later⟩ := List.ne_and_not_mem_of_not_mem_cons h
    have moved : (b::reversed).reverse++line = reversed.reverse++b::line := by simp
    rw [linesFrom.eq_4 _ _ _ fun eq => here eq.symm,ih later (moved ▸ some),moved]

theorem lines_of_lined (h : Lined content ls) : lines content = ls := by
  induction h with
  | nothing => rfl
  | last some whole => exact linesFrom_last whole some
  | ended whole _ ih =>
    rw [lines,linesFrom_ended whole]
    exact congrArg _ ih

/-- Bytes are cut in one way only. -/
theorem lined_iff : Lined content ls ↔ lines content = ls := by
  refine ⟨lines_of_lined,?_⟩
  rintro rfl
  induction length : content.length using Nat.strong_induction_on generalizing content with
  | _ n ih =>
    by_cases feed : 10 ∈ content
    · obtain ⟨line,rest,rfl,before⟩ := List.eq_append_cons_of_mem feed
      have shorter : rest.length < n := by
        rw [← length,List.length_append,List.length_cons]
        omega
      rw [lines,linesFrom_ended before]
      exact .ended before (ih _ shorter rfl)
    · by_cases empty : content = []
      · subst empty
        exact .nothing
      · rw [lines,linesFrom_last feed (by simpa using empty)]
        exact .last empty feed

/-- No byte of the line is a control character. -/
def Printable (line : Bytes) : Prop := ∀ b ∈ line,0x20 ≤ b.toNat

theorem Printable.whole (h : Printable line) : 10 ∉ line := fun feed => absurd (h 10 feed) (by decide)

theorem Printable.dropReturn (h : Printable line) : dropReturn line = line := by
  rw [Text.dropReturn,if_neg]
  intro ends
  exact absurd (h 13 (List.mem_of_getLast? ends)) (by decide)

/-- Printable lines with a line feed behind each of them. -/
theorem lines_printable (h : ∀ line ∈ ls,Printable line) :
    lines (ls.flatMap fun line => line++[10]) = ls := by
  apply lines_of_lined
  induction ls with
  | nil => exact .nothing
  | cons line ls ih =>
    obtain ⟨first,rest⟩ := List.forall_mem_cons.mp h
    have cut := Lined.ended first.whole (ih rest)
    rw [first.dropReturn] at cut
    rw [List.flatMap_cons,List.append_assoc,List.singleton_append]
    exact cut

end

theorem toList_loop (bs : ByteArray) (i : Nat) (reversed : Bytes) :
    ByteArray.toList.loop bs i reversed = reversed.reverse++bs.data.toList.drop i := by
  fun_induction ByteArray.toList.loop bs i reversed with
  | case1 i reversed inside ih =>
    have inside : i < bs.data.toList.length := inside
    have here : bs.get! i = bs.data.toList[i] := getElem!_pos bs.data i inside
    rw [ih,List.drop_eq_getElem_cons inside,here,List.reverse_cons,List.append_assoc,
      List.singleton_append]
  | case2 i reversed outside =>
    have outside : bs.data.toList.length ≤ i := Nat.le_of_not_lt outside
    rw [List.drop_eq_nil_of_le outside,List.append_nil]

theorem toBytes_eq (s : String) : toBytes s = s.toByteArray.data.toList :=
  (toList_loop _ 0 []).trans rfl

/-- What is written as bytes is read back. -/
theorem ofBytes?_toBytes (s : String) : ofBytes? (toBytes s) = some s := by
  have same : (⟨(toBytes s).toArray⟩ : ByteArray) = s.toByteArray := by rw [toBytes_eq]
  rw [ofBytes?,same,String.fromUTF8?,dif_pos s.isValidUTF8]
  rfl

theorem toBytes_ofList (cs : List Char) :
    toBytes (String.ofList cs) = cs.flatMap String.utf8EncodeChar := by
  rw [toBytes_eq,String.toByteArray_ofList,List.utf8Encode,List.toList_data_toByteArray]

/-- The bytes of a character that is no control are none either. -/
theorem printable_encode {c : Char} (h : 0x20 ≤ c.toNat) : Printable (String.utf8EncodeChar c) := by
  have h : 32 ≤ c.val.toNat := h
  intro b mem
  rw [String.utf8EncodeChar.eq_1] at mem
  split_ifs at mem <;> simp only [List.mem_cons,List.not_mem_nil,or_false] at mem
  · rw [mem,UInt8.toNat_ofNat']
    omega
  · rcases mem with rfl | rfl <;> rw [UInt8.toNat_ofNat'] <;> omega
  · rcases mem with rfl | rfl | rfl <;> rw [UInt8.toNat_ofNat'] <;> omega
  · rcases mem with rfl | rfl | rfl | rfl <;> rw [UInt8.toNat_ofNat'] <;> omega

/-- Texts of characters that are no controls, one a line. -/
theorem lines_texts {texts : List (List Char)} (h : ∀ cs ∈ texts,∀ c ∈ cs,0x20 ≤ c.toNat) :
    lines (toBytes (String.ofList (texts.flatMap fun cs => cs++['\n']))) =
      texts.map fun cs => toBytes (String.ofList cs) := by
  have feed : String.utf8EncodeChar '\n' = [10] := by decide
  have bytes : toBytes (String.ofList (texts.flatMap fun cs => cs++['\n'])) =
      (texts.map fun cs => toBytes (String.ofList cs)).flatMap fun line => line++[10] := by
    rw [toBytes_ofList,List.flatMap_assoc,List.flatMap_map]
    simp only [List.flatMap_append,List.flatMap_cons,List.flatMap_nil,feed,List.append_nil,
      toBytes_ofList]
  rw [bytes]
  apply lines_printable
  simp only [List.forall_mem_map,toBytes_ofList]
  intro cs mem b inside
  obtain ⟨c,mem',inside⟩ := List.mem_flatMap.mp inside
  exact printable_encode (h cs mem c mem') b inside

end GlobeBins.Text

import Mathlib
import GlobeBins.Product

namespace GlobeBins

/-- A bin with its output. -/
abbrev ProductRecord := RegionBin Binary32 × List Binary32

namespace ProductCall

def ofRecord (r : ProductRecord) : ProductCall := .bin r.1 r.2

/-- The call closes the product that is open. -/
def closes : ProductCall → Bool
  | .bin _ _ => false
  | _ => true

/-- A product has been begun, and since then there were only bins. -/
def Opened (calls : List ProductCall) (m : Metadata) (records : List ProductRecord) : Prop :=
  ∃ before,calls = before++.start m::records.map ofRecord

/-- Products that were begun and closed by a later call, in the order of their beginnings. -/
def closed : List ProductCall → List Metadata
  | [] => []
  | .start m::rest => if rest.any closes then m::closed rest else closed rest
  | _::rest => closed rest

/-- All products that were begun. -/
def begun : List ProductCall → List Metadata
  | [] => []
  | .start m::rest => m::begun rest
  | _::rest => begun rest

variable {calls before after : List ProductCall} {m n : Metadata} {records more : List ProductRecord}
  {b : RegionBin Binary32} {output : List Binary32} {c d : ProductCall}

theorem not_opened_nil : ¬Opened [] m records := by
  rintro ⟨before,eq⟩
  simp at eq

theorem opened_snoc : Opened (calls++[c]) m records ↔ (c = .start m ∧ records = []) ∨
    ∃ more r,records = more++[r] ∧ c = ofRecord r ∧ Opened calls m more := by
  constructor
  · rintro ⟨before,eq⟩
    rcases records.eq_nil_or_concat' with rfl | ⟨more,r,rfl⟩
    · obtain ⟨_,last⟩ := List.append_inj' eq rfl
      exact .inl ⟨(List.cons.inj last).1,rfl⟩
    · rw [List.map_append,← List.cons_append,← List.append_assoc] at eq
      obtain ⟨same,last⟩ := List.append_inj' eq rfl
      exact .inr ⟨more,r,rfl,(List.cons.inj last).1,before,same⟩
  · rintro (⟨rfl,rfl⟩ | ⟨more,r,rfl,rfl,before,rfl⟩)
    · exact ⟨calls,rfl⟩
    · exact ⟨before,by simp⟩

theorem opened_start : Opened (calls++[.start n]) m records ↔ n = m ∧ records = [] := by
  simp [opened_snoc,ofRecord]

theorem opened_bin : Opened (calls++[.bin b output]) m records ↔
    ∃ more,records = more++[(b,output)] ∧ Opened calls m more := by
  rw [opened_snoc]
  constructor
  · rintro (⟨same,_⟩ | ⟨more,r,rfl,same,opened⟩)
    · cases same
    · cases same
      exact ⟨more,rfl,opened⟩
  · rintro ⟨more,rfl,opened⟩
    exact .inr ⟨more,_,rfl,rfl,opened⟩

theorem not_opened_finish : ¬Opened (calls++[.finish]) m records := by
  simp [opened_snoc,ofRecord]

/-- At most one product is open. -/
theorem Opened.unique (h : Opened calls m records) (k : Opened calls n more) :
    m = n ∧ records = more := by
  induction calls using List.reverseRecOn generalizing records more with
  | nil => exact absurd h not_opened_nil
  | append_singleton calls c ih =>
    cases c with
    | start p =>
      obtain ⟨rfl,rfl⟩ := opened_start.mp h
      obtain ⟨rfl,rfl⟩ := opened_start.mp k
      exact ⟨rfl,rfl⟩
    | bin b output =>
      obtain ⟨front,rfl,one⟩ := opened_bin.mp h
      obtain ⟨front',rfl,other⟩ := opened_bin.mp k
      obtain ⟨rfl,rfl⟩ := ih one other
      exact ⟨rfl,rfl⟩
    | finish => exact absurd h not_opened_finish

theorem Opened.start_mem (h : Opened calls m records) : .start m ∈ calls := by
  obtain ⟨before,rfl⟩ := h
  simp

/-- The product that is open was not begun before a call that closes products. -/
theorem Opened.start_mem_after (h : Opened (before++c::after) m records) (closes : c.closes = true) :
    .start m ∈ c::after := by
  induction after using List.reverseRecOn generalizing records with
  | nil =>
    cases c with
    | start n =>
      obtain ⟨rfl,_⟩ := opened_start.mp h
      exact List.mem_singleton_self _
    | bin => cases closes
    | finish => exact absurd h not_opened_finish
  | append_singleton after d ih =>
    rw [← List.cons_append,← List.append_assoc] at h
    rw [← List.cons_append]
    rcases opened_snoc.mp h with ⟨rfl,_⟩ | ⟨more,_,_,_,h⟩
    · exact List.mem_append_right _ (List.mem_singleton_self _)
    · exact List.mem_append_left _ (ih h)

/-- Where a last call stands among the calls that close products. -/
theorem snoc_eq_split : calls++[d] = before++.start m::records.map ofRecord++c::after ↔
    (after = [] ∧ d = c ∧ calls = before++.start m::records.map ofRecord) ∨
      ∃ more,after = more++[d] ∧ calls = before++.start m::records.map ofRecord++c::more := by
  constructor
  · intro eq
    rcases after.eq_nil_or_concat' with rfl | ⟨more,last,rfl⟩
    · obtain ⟨same,ends⟩ := List.append_inj' eq rfl
      exact .inl ⟨rfl,(List.cons.inj ends).1,same⟩
    · rw [← List.cons_append,← List.append_assoc] at eq
      obtain ⟨same,ends⟩ := List.append_inj' eq rfl
      exact .inr ⟨more,by rw [(List.cons.inj ends).1],same⟩
  · rintro (⟨rfl,rfl,rfl⟩ | ⟨more,rfl,rfl⟩)
    · rfl
    · simp

theorem begun_append (calls more : List ProductCall) :
    begun (calls++more) = begun calls++begun more := by
  induction calls with
  | nil => rfl
  | cons c calls ih => cases c <;> simp [begun,ih]

theorem closed_bin : closed (calls++[.bin b output]) = closed calls := by
  induction calls with
  | nil => rfl
  | cons c calls ih =>
    cases c with
    | start m => simp [closed,ih,closes]
    | bin => exact ih
    | finish => exact ih

theorem closed_closes (h : d.closes = true) : closed (calls++[d]) = begun calls := by
  induction calls with
  | nil => cases d <;> rfl
  | cons c calls ih =>
    cases c with
    | start m => simp [closed,begun,ih,h]
    | bin => exact ih
    | finish => exact ih

theorem Opened.begun_eq (h : Opened calls m records) : begun calls = closed calls++[m] := by
  induction calls using List.reverseRecOn generalizing records with
  | nil => exact absurd h not_opened_nil
  | append_singleton calls c ih =>
    cases c with
    | start n =>
      obtain ⟨rfl,_⟩ := opened_start.mp h
      rw [closed_closes rfl,begun_append]
      rfl
    | bin b output =>
      obtain ⟨_,_,h⟩ := opened_bin.mp h
      rw [closed_bin,begun_append,ih h]
      exact List.append_nil _
    | finish => exact absurd h not_opened_finish

theorem begun_eq_closed (h : ∀ m records,¬Opened calls m records) : begun calls = closed calls := by
  induction calls using List.reverseRecOn with
  | nil => rfl
  | append_singleton calls c ih =>
    cases c with
    | start n => exact absurd (opened_start.mpr ⟨rfl,rfl⟩) (h n [])
    | bin b output =>
      have before (m : Metadata) (records : List ProductRecord) : ¬Opened calls m records :=
        fun opened => h m _ (opened_bin.mpr ⟨records,rfl,opened⟩)
      rw [closed_bin,begun_append,ih before]
      exact List.append_nil _
    | finish =>
      rw [closed_closes rfl,begun_append]
      exact List.append_nil _

end ProductCall

end GlobeBins

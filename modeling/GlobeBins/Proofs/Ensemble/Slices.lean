import Mathlib
import GlobeBins.Proofs.Ensemble.Widths

namespace GlobeBins

/-- The positions of a vector from `start` up to `stop`. -/
structure Span where
  start : Nat
  stop : Nat
  deriving DecidableEq

namespace Span

variable {α : Type}

/-- The entries in a span. -/
def of (r : Span) (v : List α) : List α := (v.drop r.start).take (r.stop-r.start)

/-- Puts other entries in a span. -/
def put (r : Span) (entries v : List α) : List α := v.take r.start++(entries++v.drop r.stop)

/-- Spans of given widths, from a position on. -/
def row : Nat → List Nat → List Span
  | _,[] => []
  | start,w::ws => ⟨start,start+w⟩::row (start+w) ws

/-- The spans of consecutive lists of names, and all names. -/
def layout (names : List (List String)) : List Span × List String :=
  names.foldl (fun p ns => (p.1++[⟨p.2.length,(p.2++ns).length⟩],p.2++ns)) ([],[])

/-- Spans that follow each other from one position to another without a gap. -/
inductive Consecutive : Nat → List Span → Nat → Prop
  | nil (n : Nat) : Consecutive n [] n
  | cons {r : Span} {rs : List Span} {n : Nat} (order : r.start ≤ r.stop)
    (rest : Consecutive r.stop rs n) : Consecutive r.start (r::rs) n

/-- Changes the entries of spans, one span after the other. -/
def inPlace (changes : List (Span × (List α → List α))) (v : List α) : List α :=
  changes.foldl (fun v p => p.1.put (p.2 (p.1.of v)) v) v

theorem layout_eq (names : List (List String)) :
    layout names = (row 0 (names.map List.length),names.flatten) := by
  have loop : ∀ (spans : List Span) (all : List String),
      names.foldl (fun p ns => (p.1++[⟨p.2.length,(p.2++ns).length⟩],p.2++ns)) (spans,all) =
        (spans++row all.length (names.map List.length),all++names.flatten) := by
    induction names with
    | nil => simp [row]
    | cons ns names ih =>
      intro spans all
      rw [List.foldl_cons,ih]
      simp [row]
  exact loop [] []

theorem row_consecutive (start : Nat) (ws : List Nat) :
    Consecutive start (row start ws) (start+ws.sum) := by
  induction ws generalizing start with
  | nil => exact .nil start
  | cons w ws ih =>
    have rest := ih (start+w)
    rw [Nat.add_assoc,← List.sum_cons] at rest
    exact .cons (r := ⟨start,start+w⟩) (Nat.le_add_right start w) rest

theorem row_length (start : Nat) (ws : List Nat) : (row start ws).length = ws.length := by
  induction ws generalizing start with
  | nil => rfl
  | cons w ws ih => rw [row,List.length_cons,ih,List.length_cons]

/-- The entries of the spans in a row are a vector cut at their widths. -/
theorem row_of (start : Nat) (ws : List Nat) (v : List α) :
    (row start ws).map (fun r => r.of v) = ws.splitLengths (v.drop start) := by
  induction ws generalizing start with
  | nil => rfl
  | cons w ws ih =>
    rw [row,List.map_cons,ih,List.splitLengths_cons,List.drop_drop,of,Nat.add_sub_cancel_left]

namespace Consecutive

variable {a b : Nat} {rs : List Span}

theorem bounds (h : Consecutive a rs b) {r : Span} (mem : r ∈ rs) :
    a ≤ r.start ∧ r.start ≤ r.stop ∧ r.stop ≤ b := by
  have le : ∀ {a rs b},Consecutive a rs b → a ≤ b := by
    intro a rs b h
    induction h with
    | nil => exact Nat.le_refl _
    | cons order _ ih => exact Nat.le_trans order ih
  induction h with
  | nil => cases mem
  | cons order rest ih =>
    rcases List.mem_cons.mp mem with rfl | mem
    · exact ⟨Nat.le_refl _,order,le rest⟩
    · obtain ⟨start,own,stop⟩ := ih mem
      exact ⟨Nat.le_trans order start,own,stop⟩

theorem apart (h : Consecutive a rs b) : rs.Pairwise fun r s => r.stop ≤ s.start := by
  induction h with
  | nil => exact .nil
  | cons _ rest ih =>
    rw [List.pairwise_cons]
    exact ⟨fun s hs => (rest.bounds hs).1,ih⟩

theorem covers (h : Consecutive a rs b) {p : Nat} (first : a ≤ p) (last : p < b) :
    ∃ r ∈ rs,r.start ≤ p ∧ p < r.stop := by
  induction h with
  | nil => omega
  | @cons r rs n _ _ ih =>
    by_cases here : p < r.stop
    · exact ⟨r,List.mem_cons_self,first,here⟩
    · obtain ⟨s,hs,inside⟩ := ih (Nat.le_of_not_lt here) last
      exact ⟨s,List.mem_cons_of_mem _ hs,inside⟩

end Consecutive

end Span

section

variable {α β : Type}

/-- Changes of slices of given widths that leave them these widths. -/
def Keep (ws : List Nat) (changes : List (List α → List α)) : Prop :=
  List.Forall₂ (fun w g => ∀ v : List α,v.length = w → (g v).length = w) ws changes

/-- Cuts a vector, changes each slice and puts them together. -/
def changed (ws : List Nat) (changes : List (List α → List α)) (v : List α) : List α :=
  (List.zipWith (fun g slice => g slice) changes (ws.splitLengths v)).flatten

theorem splitLengths_flatten (slices : List (List α)) :
    (slices.map List.length).splitLengths slices.flatten = slices := by
  induction slices with
  | nil => rfl
  | cons s ss ih =>
    rw [List.map_cons,List.splitLengths_cons,List.flatten_cons,List.take_left,List.drop_left,ih]

variable {ws : List Nat} {changes : List (List α → List α)} {v : List α}

theorem Keep.widths (keep : Keep ws changes) (fits : v.length = ws.sum) :
    (List.zipWith (fun g slice => g slice) changes (ws.splitLengths v)).map List.length = ws := by
  induction keep generalizing v with
  | nil => rfl
  | @cons w g ws changes first _ ih =>
    rw [List.sum_cons] at fits
    have slice : (v.take w).length = w := by
      rw [List.length_take]
      omega
    have rest : (v.drop w).length = ws.sum := by
      rw [List.length_drop]
      omega
    rw [List.splitLengths_cons,List.zipWith_cons_cons,List.map_cons,first _ slice,ih rest]

/-- Cut again, the vector has its slices as they were changed. -/
theorem splitLengths_changed (keep : Keep ws changes) (fits : v.length = ws.sum) :
    ws.splitLengths (changed ws changes v) =
      List.zipWith (fun g slice => g slice) changes (ws.splitLengths v) := by
  have same := splitLengths_flatten
    (List.zipWith (fun g slice => g slice) changes (ws.splitLengths v))
  rwa [keep.widths fits] at same

/-- The slice in a span becomes what its own change makes of it. -/
theorem of_changed (keep : Keep ws changes) (fits : v.length = ws.sum) {k : Nat} {r : Span}
    {g : List α → List α} (span : (Span.row 0 ws)[k]? = some r) (own : changes[k]? = some g) :
    r.of (changed ws changes v) = g (r.of v) := by
  have cut (v : List α) : (ws.splitLengths v)[k]? = some (r.of v) := by
    have row := Span.row_of 0 ws v
    rw [List.drop_zero] at row
    rw [← row,List.getElem?_map,span]
    rfl
  have same := cut (changed ws changes v)
  rw [splitLengths_changed keep fits,List.getElem?_zipWith,own,cut] at same
  exact (Option.some.inj same).symm

/-- Working through a table in place, past a part of the vector that is done with. -/
theorem inPlace_row (keep : Keep ws changes) (fits : v.length = ws.sum) (u : List α) :
    Span.inPlace ((Span.row u.length ws).zip changes) (u++v) = u++changed ws changes v := by
  induction keep generalizing u v with
  | nil =>
    obtain rfl := List.length_eq_zero_iff.mp fits
    simp [Span.inPlace,Span.row,changed]
  | @cons w g ws changes first _ ih =>
    rw [List.sum_cons] at fits
    have slice : (v.take w).length = w := by
      rw [List.length_take]
      omega
    have rest : (v.drop w).length = ws.sum := by
      rw [List.length_drop]
      omega
    have here : Span.of ⟨u.length,u.length+w⟩ (u++v) = v.take w := by
      rw [Span.of,Nat.add_sub_cancel_left,List.drop_left]
    have done : Span.put ⟨u.length,u.length+w⟩ (g (v.take w)) (u++v) =
        (u++g (v.take w))++v.drop w := by
      rw [Span.put,List.take_left,List.append_assoc,← List.drop_drop,List.drop_left]
    have next := ih rest (u++g (v.take w))
    rw [List.length_append,first _ slice] at next
    rw [Span.row,List.zip_cons_cons,Span.inPlace,List.foldl_cons,here,done,← Span.inPlace,next,
      changed,changed,List.splitLengths_cons,List.zipWith_cons_cons,List.flatten_cons,
      List.append_assoc]

end

namespace Ensemble

section

variable {α β : Type} {width readWidth : Statistic → Nat} {ss : List Statistic} {v : List α}

theorem onSlices_changed {f : Statistic → List α → List α} (fits : v.length = (ss.map width).sum) :
    onSlices width f ss v = changed (ss.map width) (ss.map f) v := by
  induction ss generalizing v with
  | nil => exact List.length_eq_zero_iff.mp fits
  | cons s ss ih =>
    simp only [List.map_cons,List.sum_cons] at fits
    have rest : (v.drop (width s)).length = (ss.map width).sum := by
      rw [List.length_drop]
      omega
    rw [onSlices,ih rest,changed,changed,List.map_cons,List.map_cons,List.splitLengths_cons,
      List.zipWith_cons_cons,List.flatten_cons]

/-- What the statistics make of their slices of another vector. -/
def readings (readWidth : Statistic → Nat) (f : Statistic → List β → List α → List α)
    (ss : List Statistic) (r : List β) : List (List α → List α) :=
  List.zipWith f ss ((ss.map readWidth).splitLengths r)

theorem onSlicePairs_changed {f : Statistic → List β → List α → List α} {r : List β}
    (fits : v.length = (ss.map width).sum) :
    onSlicePairs readWidth width f ss r v =
      changed (ss.map width) (readings readWidth f ss r) v := by
  induction ss generalizing r v with
  | nil => exact List.length_eq_zero_iff.mp fits
  | cons s ss ih =>
    simp only [List.map_cons,List.sum_cons] at fits
    have rest : (v.drop (width s)).length = (ss.map width).sum := by
      rw [List.length_drop]
      omega
    rw [onSlicePairs,ih rest,changed,changed,readings,readings,List.map_cons,List.map_cons,
      List.splitLengths_cons,List.splitLengths_cons,List.zipWith_cons_cons,List.zipWith_cons_cons,
      List.flatten_cons]

theorem keep_map {f : Statistic → List α → List α}
    (keeps : ∀ s v,v.length = width s → (f s v).length = width s) :
    Keep (ss.map width) (ss.map f) := by
  rw [Keep,List.forall₂_map_left_iff,List.forall₂_map_right_iff,List.forall₂_same]
  exact fun s _ => keeps s

theorem keep_readings {f : Statistic → List β → List α → List α} {r : List β}
    (reads : r.length = (ss.map readWidth).sum)
    (keeps : ∀ s r v,r.length = readWidth s → v.length = width s → (f s r v).length = width s) :
    Keep (ss.map width) (readings readWidth f ss r) := by
  induction ss generalizing r with
  | nil => exact .nil
  | cons s ss ih =>
    simp only [List.map_cons,List.sum_cons] at reads
    have slice : (r.take (readWidth s)).length = readWidth s := by
      rw [List.length_take]
      omega
    have rest : (r.drop (readWidth s)).length = (ss.map readWidth).sum := by
      rw [List.length_drop]
      omega
    rw [readings,List.map_cons,List.map_cons,List.splitLengths_cons,List.zipWith_cons_cons]
    exact .cons (fun v => keeps s _ v slice) (ih rest)

end

end Ensemble

end GlobeBins

import Mathlib
import GlobeBins.Grid

namespace GlobeBins

theorem runningTotals_getElem? {ns : List Nat} {total i : Nat} (h : i ≤ ns.length) :
    (runningTotals total ns)[i]? = some (total+(ns.take i).sum) := by
  induction ns generalizing total i with
  | nil =>
    obtain rfl : i = 0 := by simpa using h
    rfl
  | cons n ns ih =>
    cases i with
    | zero => rfl
    | succ i =>
      have rest : (runningTotals (total+n) ns)[i]? = some (total+n+(ns.take i).sum) :=
        ih (Nat.le_of_succ_le_succ h)
      rw [runningTotals,List.getElem?_cons_succ,rest,List.take_succ_cons,List.sum_cons,
        Nat.add_assoc]

namespace Grid

/-- A search keeps within its ends, between an entry that is not too large and one that is. -/
theorem lastAtMost_spec {entries : Array Nat} {n low high : Nat} (range : low < high)
    (counts : entries.getD low 0 ≤ n) :
    low ≤ lastAtMost entries n low high ∧ lastAtMost entries n low high < high ∧
      entries.getD (lastAtMost entries n low high) 0 ≤ n ∧
      (n < entries.getD high 0 → n < entries.getD (lastAtMost entries n low high+1) 0) := by
  fun_induction lastAtMost entries n low high with
  | case1 low high wide middle small ih =>
    obtain ⟨above,below,least,next⟩ := ih (by omega) small
    exact ⟨by omega,below,least,next⟩
  | case2 low high wide middle large ih =>
    obtain ⟨above,below,least,next⟩ := ih (by omega) counts
    exact ⟨above,by omega,least,fun _ => next (by omega)⟩
  | case3 low high narrow =>
    obtain rfl : high = low+1 := by omega
    exact ⟨Nat.le_refl _,range,counts,id⟩

variable (g : Grid)

/-- Number of columns in the rows north of a row. -/
def northOf (row : Nat) : Nat := (g.columns.toList.take row).sum

variable {g}

theorem clampRow_eq {row : Nat} (h : row < g.rows) : g.clampRow row = row := by
  unfold clampRow
  omega

theorem columnsAt_eq {row : Nat} (h : row < g.rows) :
    g.columns.toList[row]? = some (g.columnsAt row) := by
  have size : row < g.columns.size := h
  simp only [columnsAt,clampRow_eq h]
  simp [size]

theorem firsts_getElem? {row : Nat} (h : row ≤ g.rows) :
    g.firsts.toList[row]? = some (g.northOf row) := by
  rw [g.firsts_eq,runningTotals_getElem? h,Nat.zero_add]
  rfl

theorem firsts_getD {row : Nat} (h : row ≤ g.rows) : g.firsts.getD row 0 = g.northOf row := by
  have here := firsts_getElem? h
  rw [Array.getElem?_toList] at here
  simp [Array.getD_eq_getD_getElem?,here]

theorem firstBin_eq {row : Nat} (h : row < g.rows) : g.firstBin row = g.northOf row := by
  have here := firsts_getElem? (Nat.le_of_lt h)
  obtain ⟨_,entry⟩ := List.getElem?_eq_some_iff.mp here
  rw [← entry]
  simp [firstBin,clampRow_eq h]

theorem bins_eq : g.bins = g.northOf g.rows := by
  obtain ⟨_,entry⟩ := List.getElem?_eq_some_iff.mp (firsts_getElem? (Nat.le_refl g.rows))
  rw [← entry]
  simp [bins]

theorem northOf_succ {row : Nat} (h : row < g.rows) :
    g.northOf (row+1) = g.northOf row+g.columnsAt row := by
  rw [northOf,List.take_add_one,columnsAt_eq h,List.sum_append]
  simp [northOf]

theorem northOf_le {row row' : Nat} (h : row ≤ row') : g.northOf row ≤ g.northOf row' :=
  (List.take_sublist_take_left h).sum_le_sum fun _ _ => Nat.zero_le _

/-- Bins of a row are bins of the grid. -/
theorem firstBin_add_lt {row column : Nat} (h : row < g.rows) (inside : column < g.columnsAt row) :
    g.firstBin row+column < g.bins := by
  have next := northOf_le (g := g) (Nat.succ_le_of_lt h)
  rw [northOf_succ h] at next
  rw [firstBin_eq h,bins_eq]
  omega

theorem bins_pos : 0 < g.bins := by
  have first : g.firstBin 0+0 < g.bins := firstBin_add_lt g.rows_pos (g.columnsAt_pos 0)
  omega

/-- The row of a bin is the last one that begins at the bin or north of it. -/
theorem rowOf_spec (bin : Int64) : g.rowOf bin < g.rows ∧
    g.northOf (g.rowOf bin) ≤ bin.toInt.toNat ∧
      (bin.toInt.toNat < g.bins → bin.toInt.toNat < g.northOf (g.rowOf bin+1)) := by
  have counts : g.firsts.getD 0 0 ≤ bin.toInt.toNat := by
    rw [firsts_getD (Nat.zero_le _)]
    exact Nat.zero_le _
  obtain ⟨_,below,least,next⟩ := lastAtMost_spec g.rows_pos counts
  change g.rowOf bin < g.rows at below
  change g.firsts.getD (g.rowOf bin) 0 ≤ _ at least
  change _ < g.firsts.getD g.rows 0 → _ < g.firsts.getD (g.rowOf bin+1) 0 at next
  rw [firsts_getD (Nat.le_of_lt below)] at least
  rw [firsts_getD (Nat.le_refl _),← bins_eq,firsts_getD below] at next
  exact ⟨below,least,next⟩

theorem rowOf_lt (bin : Int64) : g.rowOf bin < g.rows := (rowOf_spec bin).1

theorem firstBin_rowOf_le (bin : Int64) : g.firstBin (g.rowOf bin) ≤ bin.toInt.toNat := by
  rw [firstBin_eq (rowOf_lt bin)]
  exact (rowOf_spec bin).2.1

theorem makeWith_rows {cosine : Binary64 → Binary64} {rows : Nat}
    (h : makeWith cosine rows = .ok g) : g.rows = rows := by
  unfold makeWith at h
  split at h
  next => cases h
  next =>
    split at h
    next => cases h
    next =>
      cases h
      exact columnCounts_size _ rows

theorem rowAt_lt {κ : Type} [Coordinate κ] (lat : κ) : g.rowAt lat < g.rows := g.clampRow_lt _

theorem columnAt_lt {κ : Type} [Coordinate κ] (row : Nat) (lon : κ) :
    g.columnAt row lon < g.columnsAt row := by
  have some := g.columnsAt_pos row
  simp only [columnAt]
  omega

end Grid

end GlobeBins

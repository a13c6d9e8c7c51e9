import GlobeBins.Proofs.Grid.Rows

namespace GlobeBins

namespace Grid

/-- A search stops below its upper end only before an entry that is too large. -/
theorem lastAtMost_next {entries : Array Nat} {n low high : Nat} (range : low < high) :
    lastAtMost entries n low high+1 = high ∨
      n < entries.getD (lastAtMost entries n low high+1) 0 := by
  fun_induction lastAtMost entries n low high with
  | case1 low high wide middle small ih => exact ih (by omega)
  | case2 low high wide middle large ih =>
    obtain last | next := ih (by omega)
    · right
      rw [last]
      exact Nat.lt_of_not_le large
    · exact .inr next
  | case3 low high narrow =>
    left
    omega

/-- The bin is this column of this row. -/
def At (g : Grid) (bin : Int64) (row column : Nat) : Prop :=
  row < g.rows ∧ column < g.columnsAt row ∧ bin.toInt = g.firstBin row+column

/-- What the numbers of a grid's rows, columns and bins have to do with each other. -/
structure Numbered (g : Grid) : Prop where
  columns_pos : ∀ row < g.rows,0 < g.columnsAt row
  firstBin_zero : g.firstBin 0 = 0
  firstBin_succ : ∀ row,row+1 < g.rows → g.firstBin (row+1) = g.firstBin row+g.columnsAt row
  bins_sum : g.bins = ((List.range g.rows).map g.columnsAt).sum
  place : ∀ bin : Int64,0 ≤ bin.toInt → bin.toInt < g.bins → ∃! p : Nat × Nat,g.At bin p.1 p.2
  rowOf_place : ∀ bin row column,g.At bin row column → g.rowOf bin = row
  rowOf_before : ∀ bin : Int64,bin.toInt < 0 → g.rowOf bin = 0
  rowOf_after : ∀ bin : Int64,g.bins ≤ bin.toInt → g.rowOf bin = g.rows-1
  rowOf_mono : ∀ bin bin' : Int64,bin ≤ bin' → g.rowOf bin ≤ g.rowOf bin'
  binAt_range : ∀ lat lon : Binary64,0 ≤ (g.binAt lat lon).toInt ∧ (g.binAt lat lon).toInt < g.bins
  rowOf_binAt : ∀ lat lon : Binary64,g.rowOf (g.binAt lat lon) = g.rowAt lat

variable {g : Grid} {bin bin' : Int64} {row row' column : Nat}

theorem northOf_zero : g.northOf 0 = 0 := by simp [northOf]

/-- No row is empty. -/
theorem northOf_lt (lt : row < row') (h : row < g.rows) : g.northOf row < g.northOf row' := by
  have least := northOf_le (g := g) (Nat.succ_le_of_lt lt)
  have some := g.columnsAt_pos row
  rw [northOf_succ h] at least
  omega

theorem northOf_eq_sum (h : row ≤ g.rows) :
    g.northOf row = ((List.range row).map g.columnsAt).sum := by
  induction row with
  | zero => simp [northOf]
  | succ row ih =>
    rw [northOf_succ h,ih (Nat.le_of_succ_le h),List.range_succ]
    simp

theorem rowOf_next (bin : Int64) :
    g.rowOf bin+1 = g.rows ∨ bin.toInt.toNat < g.northOf (g.rowOf bin+1) := by
  have next : g.rowOf bin+1 = g.rows ∨ bin.toInt.toNat < g.firsts.getD (g.rowOf bin+1) 0 :=
    lastAtMost_next g.rows_pos
  rwa [firsts_getD (rowOf_lt bin)] at next

/-- The row of a bin is the only one that neither begins after it nor ends before it. -/
theorem rowOf_eq (h : row < g.rows) (begun : g.northOf row ≤ bin.toInt.toNat)
    (unended : row+1 = g.rows ∨ bin.toInt.toNat < g.northOf (row+1)) : g.rowOf bin = row := by
  obtain ⟨inside,least,_⟩ := rowOf_spec (g := g) bin
  rcases Nat.lt_trichotomy (g.rowOf bin) row with north | same | south
  · have before : g.northOf (g.rowOf bin+1) ≤ g.northOf row := northOf_le north
    rcases rowOf_next (g := g) bin with last | next <;> omega
  · exact same
  · have after : g.northOf (row+1) ≤ g.northOf (g.rowOf bin) := northOf_le south
    rcases unended with last | next <;> omega

theorem At.rowOf_eq (h : g.At bin row column) : g.rowOf bin = row := by
  obtain ⟨inside,within,number⟩ := h
  rw [firstBin_eq inside] at number
  apply Grid.rowOf_eq inside
  · omega
  · right
    rw [northOf_succ inside]
    omega

/-- The place of a bin is in the row that is found for it. -/
theorem at_rowOf (low : 0 ≤ bin.toInt) (high : bin.toInt < g.bins) :
    g.At bin (g.rowOf bin) (bin.toInt.toNat-g.firstBin (g.rowOf bin)) := by
  obtain ⟨inside,least,next⟩ := rowOf_spec (g := g) bin
  have below := next (by omega)
  rw [northOf_succ inside] at below
  rw [At,firstBin_eq inside]
  exact ⟨inside,by omega,by omega⟩

theorem exists_unique_at (low : 0 ≤ bin.toInt) (high : bin.toInt < g.bins) :
    ∃! p : Nat × Nat,g.At bin p.1 p.2 := by
  refine ⟨(g.rowOf bin,_),at_rowOf low high,?_⟩
  intro p place
  obtain ⟨row,column⟩ := p
  obtain rfl : g.rowOf bin = row := At.rowOf_eq place
  have number : bin.toInt = g.firstBin (g.rowOf bin)+column := place.2.2
  have same : column = bin.toInt.toNat-g.firstBin (g.rowOf bin) := by omega
  rw [same]

theorem rowOf_before (h : bin.toInt < 0) : g.rowOf bin = 0 := by
  apply rowOf_eq g.rows_pos
  · simp [northOf_zero]
  · right
    have first : g.northOf 0 < g.northOf (0+1) := northOf_lt Nat.one_pos g.rows_pos
    omega

theorem rowOf_after (h : g.bins ≤ bin.toInt) : g.rowOf bin = g.rows-1 := by
  have some : 0 < g.rows := g.rows_pos
  have all : g.northOf (g.rows-1) ≤ g.northOf g.rows := northOf_le (Nat.sub_le _ _)
  rw [bins_eq] at h
  apply rowOf_eq
  · omega
  · omega
  · left
    omega

theorem rowOf_mono (le : bin ≤ bin') : g.rowOf bin ≤ g.rowOf bin' := by
  have order := Int64.le_iff_toInt_le.mp le
  by_contra south
  obtain ⟨inside,least,_⟩ := rowOf_spec (g := g) bin
  have before : g.northOf (g.rowOf bin'+1) ≤ g.northOf (g.rowOf bin) :=
    northOf_le (Nat.lt_of_not_le south)
  rcases rowOf_next (g := g) bin' with last | next <;> omega

/-- Bins are numbered in words if all of their numbers are words. -/
theorem toInt_ofNat (fits : g.bins < 2^63) {n : Nat} (h : n < g.bins) : (Int64.ofNat n).toInt = n :=
  Int64.toInt_ofNat_of_lt (by omega)

theorem binAt_at {κ : Type} [Coordinate κ] (fits : g.bins < 2^63) (lat lon : κ) :
    g.At (g.binAt lat lon) (g.rowAt lat) (g.columnAt (g.rowAt lat) lon) := by
  have row := rowAt_lt (g := g) lat
  have column := columnAt_lt (g := g) (g.rowAt lat) lon
  refine ⟨row,column,?_⟩
  rw [binAt,toInt_ofNat fits (firstBin_add_lt row column)]
  push_cast
  rfl

theorem numbered (fits : g.bins < 2^63) : g.Numbered where
  columns_pos row _ := g.columnsAt_pos row
  firstBin_zero := by rw [firstBin_eq g.rows_pos,northOf_zero]
  firstBin_succ row h := by
    rw [firstBin_eq h,firstBin_eq (Nat.lt_of_succ_lt h),northOf_succ (Nat.lt_of_succ_lt h)]
  bins_sum := by rw [bins_eq,northOf_eq_sum (Nat.le_refl _)]
  place _ := exists_unique_at
  rowOf_place _ _ _ := At.rowOf_eq
  rowOf_before _ := rowOf_before
  rowOf_after _ := rowOf_after
  rowOf_mono _ _ := rowOf_mono
  binAt_range lat lon := by
    have place := binAt_at fits lat lon
    have below := firstBin_add_lt place.1 place.2.1
    rw [place.2.2]
    omega
  rowOf_binAt lat lon := (binAt_at fits lat lon).rowOf_eq

/-- Whatever the cosine of a latitude is taken for, the bins of a grid are numbered row by row, and
rows are found again from their numbers and from positions. -/
theorem makeWith_numbered (cosine : Binary64 → Binary64) {rows : Nat} (positive : 0 < rows)
    (even : rows%2 = 0) (fits : (columnCounts cosine rows).toList.sum < 2^63) :
    ∃ g,makeWith cosine rows = .ok g ∧ g.rows = rows ∧ g.columns = columnCounts cosine rows ∧
      g.Numbered := by
  have some : 0 < (columnCounts cosine rows).size := by rwa [columnCounts_size]
  let g : Grid := ofColumns (columnCounts cosine rows) some (columnCounts_pos cosine rows)
  have made : makeWith cosine rows = .ok g := by
    rw [makeWith,dif_neg (by omega),if_neg (by omega)]
  have all : g.bins = (columnCounts cosine rows).toList.sum := by
    have length : g.columns.toList.length ≤ g.rows := Nat.le_refl _
    rw [bins_eq,northOf,List.take_of_length_le length]
    rfl
  refine ⟨g,made,columnCounts_size cosine rows,rfl,numbered ?_⟩
  rw [all]
  exact fits

/-- The angle itself for its cosine leaves one column in the south. -/
theorem makeWith_numbered_angle : (columnCounts id 2).toList = [3,1] ∧
    ∃ g,makeWith id 2 = .ok g ∧ g.rows = 2 ∧ g.columns = columnCounts id 2 ∧ g.Numbered := by
  have counts : (columnCounts id 2).toList = [3,1] := by decide +kernel
  exact ⟨counts,makeWith_numbered id (by decide) (by decide) (by rw [counts]; decide)⟩

end Grid

end GlobeBins

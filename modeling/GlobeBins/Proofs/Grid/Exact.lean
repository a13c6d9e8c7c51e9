import GlobeBins.Proofs.Geometry.Exact
import GlobeBins.Proofs.Grid.Numbering

namespace GlobeBins

namespace Grid

/-- The nearer a row is to the equator, the more columns it has. -/
structure Rounded (g : Grid) : Prop where
  north : ∀ row row',row ≤ row' → 2*row' < g.rows → g.columnsAt row ≤ g.columnsAt row'
  south : ∀ row row',g.rows ≤ 2*row → row ≤ row' → row' < g.rows →
    g.columnsAt row' ≤ g.columnsAt row

variable {g : Grid} {row row' first last : Nat}

/-- The narrowest of some rows in succession is the first or the last one. -/
theorem Rounded.least (rounded : g.Rounded) (above : first ≤ row) (below : row ≤ last)
    (inside : last < g.rows) :
    g.columnsAt first ≤ g.columnsAt row ∨ g.columnsAt last ≤ g.columnsAt row := by
  by_cases northern : 2*row < g.rows
  · exact .inl (rounded.north first row above northern)
  · exact .inr (rounded.south row last (by omega) below inside)

theorem rowOf_congr {bin bin' : Int64} (same : bin.toInt.toNat = bin'.toInt.toNat) :
    g.rowOf bin = g.rowOf bin' := by
  rw [rowOf,rowOf,same]

/-- The bin whose centre a bin has is in the same row. -/
theorem rowOf_clamped (bin : Int64) :
    g.rowOf (Int64.ofNat (min bin.toInt.toNat (g.bins-1))) = g.rowOf bin := by
  have some := g.bins_pos
  have word := Int64.toInt_lt bin
  have number : (Int64.ofNat (min bin.toInt.toNat (g.bins-1))).toInt =
      min bin.toInt.toNat (g.bins-1) := Int64.toInt_ofNat_of_lt (by omega)
  by_cases inside : bin.toInt < g.bins
  · apply rowOf_congr
    omega
  · -- the last bin of all lies in the last row
    rw [rowOf_after (not_lt.mp inside)]
    have rows : 0 < g.rows := g.rows_pos
    have last : g.northOf (g.rows-1) < g.northOf g.rows := northOf_lt (by omega) (by omega)
    rw [← bins_eq] at last
    apply rowOf_eq
    · omega
    · omega
    · left
      omega

theorem center_latitude {κ : Type} [Coordinate κ] (bin : Int64) :
    (g.center bin : κ × κ).1 = g.latitude (g.rowOf bin) := by
  rw [← rowOf_clamped bin]
  rfl

section

variable {K : Type} [Field K] [LinearOrder K] [IsStrictOrderedRing K] [FloorSemiring K] {lat lat' : K}

theorem rows_pos_cast : (0 : K) < g.rows := Nat.cast_pos.mpr g.rows_pos

theorem rowAt_eq_floor (lat : K) : g.rowAt lat = g.clampRow ⌊(90-lat)*g.rows/180⌋₊ := by
  simp only [rowAt,Coordinate.ofNat,Coordinate.truncate,Nat.cast_ofNat]

theorem clampRow_mono (le : row ≤ row') : g.clampRow row ≤ g.clampRow row' := by
  unfold clampRow
  omega

theorem rowAt_anti (le : lat ≤ lat') : g.rowAt lat' ≤ g.rowAt lat := by
  rw [rowAt_eq_floor,rowAt_eq_floor]
  have rows : (0 : K) < g.rows := rows_pos_cast
  apply clampRow_mono
  apply Nat.floor_mono
  gcongr

theorem latitude_eq (h : row < g.rows) :
    (g.latitude row : K) = 90-(row+1/2)*180/g.rows := by
  simp only [latitude,centerLatitude,clampRow_eq h,Coordinate.ofNat,Coordinate.half,Nat.cast_ofNat]

theorem rowAt_latitude (h : row < g.rows) : g.rowAt (g.latitude row : K) = row := by
  have rows : (g.rows : K) ≠ 0 := rows_pos_cast.ne'
  have middle : (90-(90-((row : K)+1/2)*180/g.rows))*g.rows/180 = row+1/2 := by
    field_simp
    ring
  have floor : ⌊(row : K)+1/2⌋₊ = row := by
    rw [Nat.floor_eq_iff (by positivity)]
    constructor <;> linarith
  rw [rowAt_eq_floor,latitude_eq h,middle,floor,clampRow_eq h]

theorem cellWidth_eq (row : Nat) : (g.cellWidth row : K) = 360/g.columnsAt row := by
  simp only [cellWidth,Coordinate.ofNat,Nat.cast_ofNat]

theorem cellWidth_pos (row : Nat) : (0 : K) < g.cellWidth row := by
  have some : (0 : K) < g.columnsAt row := Nat.cast_pos.mpr (g.columnsAt_pos row)
  rw [cellWidth_eq]
  positivity

theorem cellWidth_anti (le : g.columnsAt row ≤ g.columnsAt row') :
    (g.cellWidth row' : K) ≤ g.cellWidth row := by
  have some : (0 : K) < g.columnsAt row := Nat.cast_pos.mpr (g.columnsAt_pos row)
  rw [cellWidth_eq,cellWidth_eq]
  gcongr

end

end Grid

end GlobeBins

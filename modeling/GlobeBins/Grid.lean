import GlobeBins.Fault
import GlobeBins.Geometry.Orientation

namespace GlobeBins

/-- Totals before each entry, and at last the total of all. -/
def runningTotals : Nat → List Nat → List Nat
  | total,[] => [total]
  | total,n::ns => total::runningTotals (total+n) ns

theorem runningTotals_length (total : Nat) (ns : List Nat) :
    (runningTotals total ns).length = ns.length+1 := by
  induction ns generalizing total with
  | nil => rfl
  | cons n ns ih => simp [runningTotals,ih]

/-- The sinusoidal equal-area grid. Rows of equal height run from north to south, and their columns
eastward from -180 degrees; bins are numbered row by row. Numbers of bins are exact, and words hold
them as long as there are fewer than 2^63; `Guarded.bins` is the word. -/
structure Grid where
  columns : Array Nat
  /-- First bin of each row, then the number of all bins. -/
  firsts : Array Nat
  rows_pos : 0 < columns.size
  columns_pos : ∀ n ∈ columns,0 < n
  firsts_eq : firsts.toList = runningTotals 0 columns.toList

namespace Grid

def ofColumns (columns : Array Nat) (rows_pos : 0 < columns.size)
    (columns_pos : ∀ n ∈ columns,0 < n) : Grid :=
  ⟨columns,(runningTotals 0 columns.toList).toArray,rows_pos,columns_pos,rfl⟩

/-- Latitude of the middle of a row. -/
def centerLatitude {κ : Type} [Coordinate κ] (rows row : Nat) : κ :=
  let n : Nat → κ := Coordinate.ofNat
  n 90-(n row+Coordinate.half)*n 180/n rows

/-- Degrees to radians. -/
def radian : Binary64 := ⟨0x3f91df46a2529d39⟩

/-- Twice the number of rows at the equator, shrinking with the cosine, and rounded half up. -/
def columnCount (cosine : Binary64 → Binary64) (rows row : Nat) : Nat :=
  let share := cosine (centerLatitude rows row*radian)
  max (2*Binary64.ofNat rows*share+Binary64.half).truncate 1

def columnCounts (cosine : Binary64 → Binary64) (rows : Nat) : Array Nat :=
  (Array.range rows).map (columnCount cosine rows)

theorem columnCounts_pos (cosine : Binary64 → Binary64) (rows : Nat) :
    ∀ n ∈ columnCounts cosine rows,0 < n := by
  intro n h
  simp only [columnCounts,Array.mem_map] at h
  obtain ⟨row,_,rfl⟩ := h
  exact Nat.lt_of_lt_of_le Nat.one_pos (Nat.le_max_right _ _)

theorem columnCounts_size (cosine : Binary64 → Binary64) (rows : Nat) :
    (columnCounts cosine rows).size = rows := by
  simp [columnCounts]

/-- The grid of some rows, were this the cosine. -/
def makeWith (cosine : Binary64 → Binary64) (rows : Nat) : Except Fault Grid :=
  if h : rows = 0 then .error (.grid .noRows)
  else if rows%2 ≠ 0 then .error (.grid (.oddRows rows))
  else .ok (ofColumns (columnCounts cosine rows) (by rw [columnCounts_size]; omega)
    (columnCounts_pos cosine rows))

def make (rows : Nat) : Except Fault Grid := makeWith Binary64.cos rows

variable (g : Grid)

def rows : Nat := g.columns.size

theorem firsts_size : g.firsts.size = g.rows+1 := by
  rw [← Array.length_toList,g.firsts_eq,runningTotals_length,Array.length_toList,rows]

/-- Rows south of the grid count as its last row. -/
def clampRow (row : Nat) : Nat := min row (g.rows-1)

theorem clampRow_lt (row : Nat) : g.clampRow row < g.rows := by
  have := g.rows_pos
  unfold clampRow rows
  omega

def columnsAt (row : Nat) : Nat :=
  have h : g.clampRow row < g.columns.size := g.clampRow_lt row
  g.columns[g.clampRow row]

theorem columnsAt_pos (row : Nat) : 0 < g.columnsAt row :=
  g.columns_pos _ (Array.getElem_mem _)

def firstBin (row : Nat) : Nat :=
  have h : g.clampRow row < g.firsts.size := by
    have := g.clampRow_lt row
    rw [g.firsts_size]
    omega
  g.firsts[g.clampRow row]

def bins : Nat :=
  have h : g.rows < g.firsts.size := by
    rw [g.firsts_size]
    omega
  g.firsts[g.rows]

/-- Last position between `low` and `high`, where `low` counts anyway, whose entry is at most `n`;
the entries ascend. -/
def lastAtMost (entries : Array Nat) (n low high : Nat) : Nat :=
  if low+1 < high then
    let middle := (low+high)/2
    if entries.getD middle 0 ≤ n then lastAtMost entries n middle high
    else lastAtMost entries n low middle
  else low
  termination_by high-low

/-- Row of a bin. Bins before the first row and after the last one count to those. -/
def rowOf (bin : Int64) : Nat :=
  lastAtMost g.firsts bin.toInt.toNat 0 g.rows

section

variable {κ : Type} [Coordinate κ]

def latitude (row : Nat) : κ := centerLatitude g.rows (g.clampRow row)

/-- South and north bound of a row. -/
def latitudeBounds (row : Nat) : κ × κ :=
  let n : Nat → κ := Coordinate.ofNat
  let height := n 180/n g.rows
  let north := n 90-n (g.clampRow row)*height
  (north-height,north)

/-- Latitudes beyond a pole, and what is no number, fall in a polar row. -/
def rowAt (lat : κ) : Nat :=
  let n : Nat → κ := Coordinate.ofNat
  g.clampRow (Coordinate.truncate ((n 90-lat)*n g.rows/n 180))

def columnAt (row : Nat) (lon : κ) : Nat :=
  let n : Nat → κ := Coordinate.ofNat
  min (Coordinate.truncate ((lon+n 180)*n (g.columnsAt row)/n 360)) (g.columnsAt row-1)

/-- The bin of a position. -/
def binAt (lat lon : κ) : Int64 :=
  let row := g.rowAt lat
  Int64.ofNat (g.firstBin row+g.columnAt row lon)

/-- Width of a row's cells in degrees of longitude. -/
def cellWidth (row : Nat) : κ :=
  Coordinate.ofNat 360/Coordinate.ofNat (g.columnsAt row)

/-- Latitude and longitude of the middle of a bin. Bins outside the grid count as its end ones. -/
def center (bin : Int64) : κ × κ :=
  let n : Nat → κ := Coordinate.ofNat
  let index := min bin.toInt.toNat (g.bins-1)
  let row := g.rowOf (Int64.ofNat index)
  let lon := n 360*(n (index-g.firstBin row)+Coordinate.half)/n (g.columnsAt row)-n 180
  (g.latitude row,lon)

end

end Grid

end GlobeBins

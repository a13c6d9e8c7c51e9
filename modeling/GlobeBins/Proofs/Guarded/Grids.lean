import GlobeBins.Region
import GlobeBins.Shuffle
import GlobeBins.Proofs.Grid.Numbering
import GlobeBins.Proofs.Guarded.Access

namespace GlobeBins

namespace Guarded

/-- Totals before each entry, and at last the total of all. Words wrap. -/
def totals : Int64 → List Nat → List Int64
  | total,[] => [total]
  | total,n::ns => total::totals (total+Int64.ofNat n) ns

section

variable (g : Grid)

/-- First bins of the rows. -/
def bases : List Int64 := (totals 0 g.columns.toList).take g.rows

/-- Number of all bins. -/
def bins : Int64 := (totals 0 g.columns.toList).getLastD 0

/-- The last row that begins at a bin or before it, and the first one for a bin before all rows. A
search finds it in a table that ascends. -/
def rowOf (bin : Int64) : Nat := (bases g).countP (fun first => first ≤ bin)-1

end

section

variable {κ : Type} [Coordinate κ] (g : Grid)

def rowAt (lat : κ) : Except Stop Nat := do
  let n : Nat → κ := Coordinate.ofNat
  let last ← minus g.rows 1
  return min (Coordinate.truncate ((n 90-lat)*n g.rows/n 180)) last

/-- First bin of a position's row, and its column. -/
def place (lat lon : κ) : Except Stop (Int64 × Int64) := do
  let n : Nat → κ := Coordinate.ofNat
  let row ← rowAt g lat
  let columns ← item g.columns.toList row
  let last ← minus columns 1
  let column := min (Coordinate.truncate ((lon+n 180)*n columns/n 360)) last
  let first ← item (bases g) row
  return (first,Int64.ofNat column)

/-- The bin of a position, a word that wraps as the totals do. -/
def binAt (lat lon : κ) : Except Stop Int64 := do
  let (first,column) ← place g lat lon
  return first+column

/-- The bin of a position is summed up without wrapping. -/
def Held (lat lon : κ) : Prop :=
  ∃ first column,place g lat lon = .ok (first,column) ∧ wordSum first column = .ok (g.binAt lat lon)

/-- A number with a sign as a coordinate. -/
def signed (z : Int) : κ :=
  let n : Nat → κ := Coordinate.ofNat
  if 0 ≤ z then n z.toNat else n 0-n z.natAbs

def center (bin : Int64) : Except Stop (κ × κ) := do
  let n : Nat → κ := Coordinate.ofNat
  let last ← wordDifference (bins g) 1
  let index ← clamp bin 0 last
  let row := rowOf g index
  let first ← item (bases g) row
  let column ← wordDifference index first
  let columns ← item g.columns.toList row
  let south ← minus g.rows 1
  let lon := n 360*(signed column.toInt+Coordinate.half)/n columns-n 180
  return (Grid.centerLatitude g.rows (min row south),lon)

def fanOut {α : Type} (rs : List (Region κ)) (b : TemporalBin α) :
    Except Stop (List (RegionBin α)) := do
  let (lat,lon) : κ × κ ← center g b.index
  return rs.zipIdx.filterMap fun p =>
    if p.1.contains lat lon then some (.of (Int32.ofNat p.2) b) else none

def rowsBetween (partitions : Nat) (south north : κ) : Except Stop RowRouting := do
  let first ← rowAt g north
  let last ← rowAt g south
  let southern ← minus g.rows 1
  let last := min last southern
  return ⟨g,max partitions 1,min first last,last⟩

end

def partitionOfRow (r : RowRouting) (row : Nat) : Except Stop Nat := do
  let span ← minus r.last r.first
  let rows ← word (span+1)
  let offset ← minus (max (min row r.last) r.first) r.first
  let product ← word (offset*r.partitions)
  let share ← quotient product rows
  let greatest ← minus r.partitions 1
  return min share greatest

def partitionOfRegion (partitions : Nat) (key : RegionKey) : Except Stop Nat := do
  let rest ← remainder key.region (Int32.ofNat (max partitions 1))
  return rest.toNat

section

variable {g : Grid}

/-- A total that wraps is the exact one as a word. -/
theorem totals_ofNat (total : Nat) (ns : List Nat) :
    totals (Int64.ofNat total) ns = (runningTotals total ns).map Int64.ofNat := by
  induction ns generalizing total with
  | nil => rfl
  | cons n ns ih => rw [totals,← Int64.ofNat_add,ih,runningTotals,List.map_cons]

theorem totals_eq : totals 0 g.columns.toList = g.firsts.toList.map Int64.ofNat := by
  rw [g.firsts_eq]
  exact totals_ofNat 0 _

theorem bases_getElem? {row : Nat} (h : row < g.rows) :
    (bases g)[row]? = some (Int64.ofNat (g.firstBin row)) := by
  rw [bases,List.getElem?_take_of_lt h,totals_eq,List.getElem?_map,
    Grid.firsts_getElem? (Nat.le_of_lt h),Grid.firstBin_eq h]
  rfl

theorem bases_eq : bases g = (List.range g.rows).map fun row => Int64.ofNat (g.firstBin row) := by
  have length : (bases g).length = g.rows := by
    simp [bases,totals_eq,Grid.firsts_size]
  apply List.ext_getElem?
  intro row
  by_cases inside : row < g.rows
  · simp [bases_getElem? inside,inside]
  · rw [List.getElem?_eq_none (by omega),List.getElem?_eq_none (by simp; omega)]

theorem bins_eq : bins g = Int64.ofNat g.bins := by
  have last : g.firsts.toList.getLast? = some g.bins := by
    rw [List.getLast?_eq_getElem?,Array.length_toList,Grid.firsts_size,Nat.add_sub_cancel,
      Grid.firsts_getElem? (Nat.le_refl _),Grid.bins_eq]
  rw [bins,totals_eq,List.getLastD_eq_getLast?,List.getLast?_map,last]
  rfl

theorem lastRow_eq : minus g.rows 1 = .ok (g.rows-1) := minus_eq g.rows_pos

theorem countP_range_le (row n : Nat) :
    (List.range n).countP (fun k => k ≤ row) = min (row+1) n := by
  induction n with
  | zero => simp
  | succ n ih =>
    rw [List.range_succ,List.countP_append,ih,List.countP_singleton]
    by_cases h : n ≤ row
    · simp [h]
      omega
    · simp [h]
      omega

/-- Rows are found in the table of words where all bins are words. -/
theorem rowOf_eq (fits : g.bins < 2^63) (bin : Int64) : rowOf g bin = g.rowOf bin := by
  have inside := Grid.rowOf_lt (g := g) bin
  have begins (row : Nat) (h : row < g.rows) :
      Int64.ofNat (g.firstBin row) ≤ bin ↔ (g.northOf row : Int) ≤ bin.toInt := by
    have low := Grid.firstBin_add_lt h (g.columnsAt_pos row)
    rw [Int64.le_iff_toInt_le,Int64.toInt_ofNat_of_lt (by omega),Grid.firstBin_eq h]
  rw [rowOf,bases_eq,List.countP_map]
  by_cases before : bin.toInt < 0
  · have none : (List.range g.rows).countP
        ((fun first : Int64 => decide (first ≤ bin)) ∘ fun row => Int64.ofNat (g.firstBin row)) =
          0 := by
      rw [List.countP_eq_zero]
      intro row mem
      have here := List.mem_range.mp mem
      simp only [Function.comp_apply,decide_eq_true_eq,begins row here]
      omega
    rw [none,Grid.rowOf_before before]
  · have upTo : (List.range g.rows).countP
        ((fun first : Int64 => decide (first ≤ bin)) ∘ fun row => Int64.ofNat (g.firstBin row)) =
          (List.range g.rows).countP fun row => row ≤ g.rowOf bin := by
      refine List.countP_congr fun row mem => ?_
      have here := List.mem_range.mp mem
      simp only [Function.comp_apply,decide_eq_true_eq,begins row here]
      constructor
      · intro begun
        by_contra south
        have after : g.northOf (g.rowOf bin+1) ≤ g.northOf row :=
          Grid.northOf_le (Nat.lt_of_not_le south)
        rcases Grid.rowOf_next (g := g) bin with last | next <;> omega
      · intro north
        have least := (Grid.rowOf_spec (g := g) bin).2.1
        have order : g.northOf row ≤ g.northOf (g.rowOf bin) := Grid.northOf_le north
        omega
    rw [upTo,countP_range_le]
    omega

end

section

variable {κ : Type} [Coordinate κ] {g : Grid}

theorem signed_natCast (n : Nat) : (signed (n : Int) : κ) = Coordinate.ofNat n := by
  simp [signed]

theorem rowAt_eq (lat : κ) : rowAt g lat = .ok (g.rowAt lat) := by
  rw [rowAt,lastRow_eq]
  rfl

theorem place_eq (lat lon : κ) : place g lat lon = .ok (Int64.ofNat (g.firstBin (g.rowAt lat)),
    Int64.ofNat (g.columnAt (g.rowAt lat) lon)) := by
  have row := Grid.rowAt_lt (g := g) lat
  have last := minus_eq (Nat.succ_le_of_lt (g.columnsAt_pos (g.rowAt lat)))
  rw [place,rowAt_eq,ok_bind,item_eq (Grid.columnsAt_eq row),ok_bind,last,ok_bind,
    item_eq (bases_getElem? row),ok_bind]
  rfl

theorem binAt_eq (lat lon : κ) : binAt g lat lon = .ok (g.binAt lat lon) := by
  rw [binAt,place_eq,ok_bind,Grid.binAt,Int64.ofNat_add]
  rfl

theorem held (fits : g.bins < 2^63) (lat lon : κ) : Held g lat lon := by
  have inside := Grid.firstBin_add_lt (Grid.rowAt_lt (g := g) lat) (Grid.columnAt_lt _ lon)
  exact ⟨_,_,place_eq lat lon,wordSum_ofNat (inside.trans fits)⟩

theorem center_eq (fits : g.bins < 2^63) (bin : Int64) :
    (center g bin : Except Stop (κ × κ)) = .ok (g.center bin) := by
  let index := min bin.toInt.toNat (g.bins-1)
  have some : 0 < g.bins := Grid.bins_pos
  have low : index < 2^63 := by omega
  have last : wordDifference (bins g) 1 = .ok (Int64.ofNat (g.bins-1)) := by
    rw [bins_eq]
    exact wordDifference_ofNat (m := 1) some fits
  have clamped : clamp bin 0 (Int64.ofNat (g.bins-1)) = .ok (Int64.ofNat index) :=
    clamp_zero bin (by omega)
  have inside : g.rowOf (Int64.ofNat index) < g.rows := Grid.rowOf_lt _
  have order : g.firstBin (g.rowOf (Int64.ofNat index)) ≤ index := by
    have least := Grid.firstBin_rowOf_le (g := g) (Int64.ofNat index)
    rwa [Int64.toInt_ofNat_of_lt low,Int.toNat_natCast] at least
  have column : (signed (Int64.ofNat (index-g.firstBin (g.rowOf (Int64.ofNat index)))).toInt : κ) =
      Coordinate.ofNat (index-g.firstBin (g.rowOf (Int64.ofNat index))) := by
    rw [Int64.toInt_ofNat_of_lt (by omega),signed_natCast]
  simp only [center,last,ok_bind,clamped,rowOf_eq fits,item_eq (bases_getElem? inside),
    wordDifference_ofNat order low,column,item_eq (Grid.columnsAt_eq inside),lastRow_eq]
  rfl

/-- A number of bins that has become negative leaves no bin to take the centre of. -/
theorem center_stops (low : 2^63 < g.bins) (high : g.bins < 2^64) (bin : Int64) :
    (center g bin : Except Stop (κ × κ)) = .error .bounds := by
  have wrapped : (bins g).toInt = g.bins-2^64 := by
    rw [bins_eq,Int64.toInt_ofNat',Int.bmod_def,Int64.size]
    split <;> omega
  have last : wordDifference (bins g) 1 = .ok (bins g-1) := by
    have one : (1 : Int64).toInt = 1 := rfl
    rw [wordDifference,if_pos (by omega)]
  have negative : bins g-1 < 0 := by
    have one : (1 : Int64).toInt = 1 := rfl
    have zero : (0 : Int64).toInt = 0 := rfl
    rw [Int64.lt_iff_toInt_lt,Int64.toInt_sub,wrapped,one,zero,Int.bmod_def]
    split <;> omega
  rw [center,last,ok_bind,clamp_stops bin negative]
  rfl

theorem fanOut_stops (low : 2^63 < g.bins) (high : g.bins < 2^64) {α : Type} (rs : List (Region κ))
    (b : TemporalBin α) : fanOut g rs b = .error .bounds := by
  rw [fanOut,center_stops low high]
  rfl

theorem fanOut_eq {α : Type} (fits : g.bins < 2^63) (rs : List (Region κ)) (b : TemporalBin α) :
    fanOut g rs b = .ok (Region.fanOut g rs b) := by
  rw [fanOut,center_eq fits]
  rfl

theorem rowsBetween_eq (partitions : Nat) (south north : κ) :
    rowsBetween g partitions south north = .ok (.ofLatitudes g partitions south north) := by
  rw [rowsBetween,rowAt_eq,ok_bind,rowAt_eq,ok_bind,lastRow_eq]
  rfl

end

theorem partitionOfRow_eq {r : RowRouting} (order : r.first ≤ r.last) (positive : 0 < r.partitions)
    (low : (r.last-r.first+1)*r.partitions < 2^64) (row : Nat) :
    partitionOfRow r row = .ok (r.partitionOfRow row) := by
  let offset := max (min row r.last) r.first-r.first
  have rows : r.last-r.first+1 < 2^64 :=
    Nat.lt_of_le_of_lt (Nat.le_mul_of_pos_right _ positive) low
  have product : offset*r.partitions < 2^64 := by
    have most : offset ≤ r.last-r.first+1 := by omega
    exact Nat.lt_of_le_of_lt (Nat.mul_le_mul_right _ most) low
  rw [partitionOfRow,minus_eq order,ok_bind,word_eq rows,ok_bind,minus_eq (Nat.le_max_right _ _),
    ok_bind,word_eq product,ok_bind,quotient_eq (Nat.succ_pos _),ok_bind,minus_eq positive,ok_bind,
    RowRouting.partitionOfRow,Nat.mod_eq_of_lt product]
  rfl

theorem partitionOfRegion_eq {partitions : Nat} (small : partitions < 2^31) (key : RegionKey) :
    partitionOfRegion partitions key = .ok ((regionRouting partitions).partitionOf key) := by
  have count : (Int32.ofNat (max partitions 1)).toInt = max partitions 1 :=
    Int32.toInt_ofNat_of_lt (by omega)
  have notZero : Int32.ofNat (max partitions 1) ≠ 0 := by
    intro zero
    rw [zero] at count
    have none : (0 : Int32).toInt = 0 := rfl
    omega
  have notMinus : Int32.ofNat (max partitions 1) ≠ -1 := by
    intro minus
    rw [minus] at count
    have negative : (-1 : Int32).toInt = -1 := rfl
    omega
  rw [partitionOfRegion,remainder,if_neg notZero,if_neg fun h => notMinus h.2]
  rfl

end Guarded

end GlobeBins

import GlobeBins.Proofs.Grid.Exact

namespace GlobeBins

namespace Grid

variable {K : Type} [Field K] [LinearOrder K] [IsStrictOrderedRing K] [FloorSemiring K]

/-- What is cut into slices of the same size: each has its beginning, and the last one also its end. -/
theorem slice_eq {n r : Nat} {z w : K} (some : 0 < n) (positive : 0 < w) (nonneg : 0 ≤ z)
    (most : z ≤ w) : min ⌊z*n/w⌋₊ (n-1) = r ↔
      r < n ∧ w*r/n ≤ z ∧ (z < w*(r+1)/n ∨ r+1 = n ∧ z ≤ w*(r+1)/n) := by
  have count : (0 : K) < n := Nat.cast_pos.mpr some
  have share : 0 ≤ z*n/w := by positivity
  have whole : ⌊z*n/w⌋₊ ≤ n := by
    apply Nat.floor_le_of_le
    rw [div_le_iff₀ positive,mul_comm]
    gcongr
  have least : r ≤ ⌊z*n/w⌋₊ ↔ w*r/n ≤ z := by
    rw [Nat.le_floor_iff share,le_div_iff₀ positive,div_le_iff₀ count,mul_comm w]
  have next : ⌊z*n/w⌋₊ < r+1 ↔ z < w*(r+1)/n := by
    rw [Nat.floor_lt share,div_lt_iff₀ positive,lt_div_iff₀ count,Nat.cast_add_one,mul_comm w]
  have ending : r+1 = n → z ≤ w*(r+1)/n := by
    intro last
    rwa [← Nat.cast_add_one,last,mul_div_cancel_right₀ _ count.ne']
  rw [← least,← next]
  constructor
  · intro same
    obtain inside | beyond : r+1 < n ∨ r+1 = n := by omega
    · exact ⟨by omega,by omega,.inl (by omega)⟩
    · exact ⟨by omega,by omega,.inr ⟨beyond,ending beyond⟩⟩
  · rintro ⟨below,above,before | ⟨last,_⟩⟩ <;> omega

/-- The position is in the cell of the bin. A cell ends before the next one begins; only at the south
pole and in the east of the last column there is none. -/
structure Covers (g : Grid) (bin : Int64) (lat lon : K) : Prop where
  inside : 0 ≤ bin.toInt ∧ bin.toInt < g.bins
  north : lat ≤ (g.latitudeBounds (g.rowOf bin)).2
  south : (g.latitudeBounds (g.rowOf bin)).1 < lat ∨
    g.rowOf bin+1 = g.rows ∧ (g.latitudeBounds (g.rowOf bin)).1 ≤ lat
  west : (g.center bin : K × K).2-g.cellWidth (g.rowOf bin)/2 ≤ lon
  east : lon < (g.center bin : K × K).2+g.cellWidth (g.rowOf bin)/2 ∨
    bin.toInt+1 = g.firstBin (g.rowOf bin)+g.columnsAt (g.rowOf bin) ∧
      lon ≤ (g.center bin : K × K).2+g.cellWidth (g.rowOf bin)/2

variable {g : Grid} {bin : Int64} {row column : Nat} {lat lon : K}

theorem latitudeBounds_eq (h : row < g.rows) :
    (g.latitudeBounds row : K × K) = (90-180*((row : K)+1)/g.rows,90-180*(row : K)/g.rows) := by
  simp only [latitudeBounds,clampRow_eq h,Coordinate.ofNat,Nat.cast_ofNat,Prod.mk.injEq]
  constructor <;> ring

theorem rowAt_eq_iff (h : row < g.rows) (low : -90 ≤ lat) (high : lat ≤ 90) :
    g.rowAt lat = row ↔ lat ≤ (g.latitudeBounds row).2 ∧
      ((g.latitudeBounds row).1 < lat ∨ row+1 = g.rows ∧ (g.latitudeBounds row).1 ≤ lat) := by
  have some : 0 < g.rows := g.rows_pos
  have slice := slice_eq (r := row) (z := 90-lat) (w := 180) some (by norm_num)
    (by linarith) (by linarith)
  rw [rowAt_eq_floor,latitudeBounds_eq h,clampRow,slice,le_sub_comm,sub_lt_comm,sub_le_comm]
  exact and_iff_right h

theorem columnAt_eq_iff (h : column < g.columnsAt row) (low : -180 ≤ lon) (high : lon ≤ 180) :
    g.columnAt row lon = column ↔ 360*column/g.columnsAt row ≤ lon+180 ∧
      (lon+180 < 360*(column+1)/g.columnsAt row ∨
        column+1 = g.columnsAt row ∧ lon+180 ≤ 360*(column+1)/g.columnsAt row) := by
  have slice := slice_eq (r := column) (z := lon+180) (w := 360) (g.columnsAt_pos row)
    (by norm_num) (by linarith) (by linarith)
  simp only [columnAt,Coordinate.ofNat,Coordinate.truncate,Nat.cast_ofNat]
  rw [slice]
  exact and_iff_right h

theorem At.inside (place : g.At bin row column) : 0 ≤ bin.toInt ∧ bin.toInt < g.bins := by
  have below := firstBin_add_lt place.1 place.2.1
  rw [place.2.2]
  omega

theorem At.center_eq (place : g.At bin row column) :
    (g.center bin : K × K) =
      (g.latitude row,360*((column : K)+1/2)/g.columnsAt row-180) := by
  have inside := place.inside
  have number := place.2.2
  have index : min bin.toInt.toNat (g.bins-1) = bin.toInt.toNat := by omega
  have same : Int64.ofNat bin.toInt.toNat = bin := by
    rw [← Int64.toInt_inj,Int64.toInt_ofNat_of_lt (by have := bin.toInt_lt; omega)]
    omega
  have own : bin.toInt.toNat-g.firstBin row = column := by omega
  simp only [center,index,same,place.rowOf_eq,own,Coordinate.ofNat,Coordinate.half,Nat.cast_ofNat]

/-- A cell has the positions of its row and its column. -/
theorem At.covers_iff (place : g.At bin row column) (low : -90 ≤ lat) (high : lat ≤ 90)
    (west : -180 ≤ lon) (east : lon ≤ 180) :
    g.Covers bin lat lon ↔ g.rowAt lat = row ∧ g.columnAt row lon = column := by
  have first : (g.center bin : K × K).2-g.cellWidth row/2 = 360*column/g.columnsAt row-180 := by
    rw [place.center_eq,cellWidth_eq]
    ring
  have last : (g.center bin : K × K).2+g.cellWidth row/2 = 360*(column+1)/g.columnsAt row-180 := by
    rw [place.center_eq,cellWidth_eq]
    ring
  have ending : bin.toInt+1 = g.firstBin row+g.columnsAt row ↔ column+1 = g.columnsAt row := by
    have number := place.2.2
    omega
  rw [rowAt_eq_iff place.1 low high,columnAt_eq_iff place.2.1 west east]
  constructor
  · rintro ⟨_,north,south,west,east⟩
    rw [place.rowOf_eq] at north south west east
    rw [first,sub_le_iff_le_add] at west
    rw [last,ending,lt_sub_iff_add_lt,le_sub_iff_add_le] at east
    exact ⟨⟨north,south⟩,west,east⟩
  · rintro ⟨⟨north,south⟩,west,east⟩
    constructor
    · exact place.inside
    all_goals rw [place.rowOf_eq]
    · exact north
    · exact south
    · rwa [first,sub_le_iff_le_add]
    · rwa [last,ending,lt_sub_iff_add_lt,le_sub_iff_add_le]

theorem columnAt_center (place : g.At bin row column) :
    g.columnAt row (g.center bin : K × K).2 = column := by
  have some : (0 : K) < g.columnsAt row := Nat.cast_pos.mpr (g.columnsAt_pos row)
  have inside : (column : K)+1 ≤ g.columnsAt row := by
    exact_mod_cast Nat.succ_le_of_lt place.2.1
  have nonneg : 0 ≤ 360*((column : K)+1/2)/g.columnsAt row := by positivity
  have most : 360*((column : K)+1/2)/g.columnsAt row ≤ 360 := by
    rw [div_le_iff₀ some]
    linarith
  rw [place.center_eq,columnAt_eq_iff place.2.1 (by linarith) (by linarith),sub_add_cancel]
  refine ⟨?_,.inl ?_⟩
  · gcongr
    linarith
  · gcongr
    linarith

/-- The centre of a bin is in it. -/
theorem binAt_center (fits : g.bins < 2^63) (place : g.At bin row column) :
    g.binAt (g.center bin : K × K).1 (g.center bin : K × K).2 = bin := by
  have found := binAt_at fits (g.center bin : K × K).1 (g.center bin : K × K).2
  have same : g.rowAt (g.center bin : K × K).1 = row := by
    rw [place.center_eq,rowAt_latitude place.1]
  rw [same,columnAt_center place] at found
  rw [← Int64.toInt_inj,found.2.2,place.2.2]

/-- Each bin is found from its centre, and each position on the globe is in the cell of the bin that is
found for it, and in no other one. -/
theorem tiled (fits : g.bins < 2^63) :
    (∀ bin : Int64,0 ≤ bin.toInt → bin.toInt < g.bins →
      g.binAt (g.center bin : K × K).1 (g.center bin : K × K).2 = bin) ∧
    ∀ lat lon : K,-90 ≤ lat → lat ≤ 90 → -180 ≤ lon → lon ≤ 180 →
      g.Covers (g.binAt lat lon) lat lon ∧ ∃! bin,g.Covers bin lat lon := by
  refine ⟨fun bin low high => binAt_center fits (at_rowOf low high),?_⟩
  intro lat lon low high west east
  have place := binAt_at fits lat lon
  have covered : g.Covers (g.binAt lat lon) lat lon :=
    (place.covers_iff low high west east).mpr ⟨rfl,rfl⟩
  refine ⟨covered,_,covered,fun bin covers => ?_⟩
  have other := at_rowOf covers.inside.1 covers.inside.2
  obtain ⟨row,column⟩ := (other.covers_iff low high west east).mp covers
  rw [← row] at other column
  rw [← Int64.toInt_inj,other.2.2,place.2.2,← column]

/-- Twelve bins, and the corner where rows and columns meet. -/
theorem tiled_corner : (ofColumns #[2,4,4,2] (by decide) (by decide)).bins < 2^63 ∧
    let g := ofColumns #[2,4,4,2] (by decide) (by decide)
    g.binAt (g.center 5 : ℚ × ℚ).1 (g.center 5 : ℚ × ℚ).2 = 5 ∧
      g.Covers (g.binAt (0 : ℚ) (-90)) (0 : ℚ) (-90) := by
  have fits : (ofColumns #[2,4,4,2] (by decide) (by decide)).bins < 2^63 := by decide
  obtain ⟨found,covered⟩ := tiled (K := ℚ) fits
  refine ⟨fits,found 5 (by decide) (by decide),?_⟩
  exact (covered 0 (-90) (by norm_num) (by norm_num) (by norm_num) (by norm_num)).1

end Grid

end GlobeBins

import GlobeBins.Proofs.Guarded.Grids
import GlobeBins.Proofs.Shuffle.Layout
import GlobeBins.Proofs.Shuffle.Routing

namespace GlobeBins

/-- Rows between a first and a last one, brought onto the grid. -/
def Guarded.rowsGiven (g : Grid) (partitions first last : Nat) : Except Stop RowRouting := do
  let southern ← minus g.rows 1
  let last := min last southern
  return ⟨g,max partitions 1,min first last,last⟩

theorem Guarded.rowsGiven_eq (g : Grid) (partitions first last : Nat) :
    rowsGiven g partitions first last = .ok (.ofRows g partitions first last) := by
  rw [rowsGiven,lastRow_eq]
  rfl

namespace RowRouting

variable (r : RowRouting)

/-- Number of rows that are shared out. -/
def covered : Nat := r.last-r.first+1

/-- The covered rows that a partition takes. -/
def rowsIn (p : Nat) : Finset Nat :=
  (Finset.Icc r.first r.last).filter fun row => r.partitionOfRow row = p

/-- Number of covered rows before the first one of a partition. -/
def rowsBefore (p : Nat) : Nat := p*r.covered ⌈/⌉ r.partitions

/-- How rows are shared out. -/
structure Balanced : Prop where
  /-- The covered rows are rows of the grid. -/
  covers : r.first ≤ r.last ∧ r.last < r.grid.rows
  /-- No step overflows, goes below zero or divides by it. -/
  steps : ∀ row,Guarded.partitionOfRow r row = .ok (r.partitionOfRow row)
  inside : ∀ row,r.partitionOfRow row < r.partitions
  mono : ∀ row row',row ≤ row' → r.partitionOfRow row ≤ r.partitionOfRow row'
  north : ∀ row ≤ r.first,r.partitionOfRow row = r.partitionOfRow r.first
  south : ∀ row,r.last ≤ row → r.partitionOfRow row = r.partitionOfRow r.last
  even : ∀ p < r.partitions,∀ q < r.partitions,(r.rowsIn p).card ≤ (r.rowsIn q).card+1
  filled : r.partitions ≤ r.covered → ∀ p < r.partitions,(r.rowsIn p).Nonempty
  bins : ∀ bin bin',bin ≤ bin' → r.routing.partitionOf bin ≤ r.routing.partitionOf bin'

variable {r} {row p : Nat}

theorem partitionOfRow_north (order : r.first ≤ r.last) (h : row ≤ r.first) :
    r.partitionOfRow row = r.partitionOfRow r.first := by
  have same : max (min row r.last) r.first = max (min r.first r.last) r.first := by omega
  simp only [partitionOfRow,same]

theorem partitionOfRow_south (h : r.last ≤ row) :
    r.partitionOfRow row = r.partitionOfRow r.last := by
  have same : min row r.last = min r.last r.last := by omega
  simp only [partitionOfRow,same]

section

variable (positive : 0 < r.partitions) (low : r.covered*r.partitions < 2^64)

include positive low

/-- Where no word overflows, a covered row has its proportional share. -/
theorem partitionOfRow_covered (north : r.first ≤ row) (south : row ≤ r.last) :
    r.partitionOfRow row = (row-r.first)*r.partitions/r.covered := by
  have offset : max (min row r.last) r.first-r.first = row-r.first := by omega
  have before : row-r.first < r.covered := by
    rw [covered]
    omega
  have below : (row-r.first)*r.partitions < r.covered*r.partitions :=
    Nat.mul_lt_mul_of_pos_right before positive
  have fits : (row-r.first)*r.partitions%2^64 = (row-r.first)*r.partitions :=
    Nat.mod_eq_of_lt (below.trans low)
  have share : (row-r.first)*r.partitions/r.covered < r.partitions := Nat.div_lt_of_lt_mul below
  simp only [partitionOfRow,offset,fits]
  exact Nat.min_eq_left (Nat.le_sub_one_of_lt share)

/-- A partition takes the rows up to where the next one begins. -/
theorem rowsIn_eq (order : r.first ≤ r.last) (h : p < r.partitions) :
    r.rowsIn p = Finset.Ico (r.first+r.rowsBefore p) (r.first+r.rowsBefore (p+1)) := by
  have some : 0 < r.covered := Nat.succ_pos _
  have begun (i q : Nat) : r.rowsBefore q ≤ i ↔ q*r.covered ≤ i*r.partitions := by
    rw [rowsBefore,ceilDiv_le_iff_le_mul positive,Nat.mul_comm r.partitions]
  have within : r.rowsBefore (p+1) ≤ r.covered := by
    rw [begun,Nat.mul_comm r.covered]
    exact Nat.mul_le_mul_right _ h
  ext row
  simp only [rowsIn,Finset.mem_filter,Finset.mem_Icc,Finset.mem_Ico]
  have share (north : r.first ≤ row) (south : row ≤ r.last) : r.partitionOfRow row = p ↔
      r.rowsBefore p ≤ row-r.first ∧ row-r.first < r.rowsBefore (p+1) := by
    rw [partitionOfRow_covered positive low north south,begun,← Nat.not_le,begun,Nat.not_le,
      ← Nat.le_div_iff_mul_le some,← Nat.div_lt_iff_lt_mul some]
    omega
  rw [covered] at within
  constructor
  · intro h
    obtain ⟨⟨north,south⟩,own⟩ := h
    have place := (share north south).mp own
    omega
  · intro h
    have north : r.first ≤ row := by omega
    have south : row ≤ r.last := by omega
    refine ⟨⟨north,south⟩,(share north south).mpr ?_⟩
    omega

/-- As many rows as there are for each partition, or one more. -/
theorem rowsIn_card (order : r.first ≤ r.last) (h : p < r.partitions) :
    r.covered/r.partitions ≤ (r.rowsIn p).card ∧
      (r.rowsIn p).card ≤ r.covered/r.partitions+1 := by
  have bounds (q : Nat) : q*r.covered ≤ r.partitions*r.rowsBefore q ∧
      r.partitions*r.rowsBefore q < q*r.covered+r.partitions := by
    have enough : q*r.covered ≤ r.partitions*r.rowsBefore q := le_smul_ceilDiv positive
    refine ⟨enough,?_⟩
    have whole := Nat.mul_div_le (q*r.covered+r.partitions-1) r.partitions
    rw [← Nat.ceilDiv_eq_add_pred_div,← rowsBefore] at whole
    omega
  obtain ⟨enough,fewest⟩ := bounds p
  obtain ⟨enough',fewest'⟩ := bounds (p+1)
  rw [Nat.add_one_mul] at enough' fewest'
  have rest := Nat.mod_lt r.covered positive
  have parts := Nat.div_add_mod r.covered r.partitions
  have least : r.rowsBefore p+r.covered/r.partitions < r.rowsBefore (p+1)+1 := by
    apply Nat.lt_of_mul_lt_mul_left (a := r.partitions)
    rw [Nat.mul_add,Nat.mul_add]
    omega
  have most : r.rowsBefore (p+1) < r.rowsBefore p+r.covered/r.partitions+2 := by
    apply Nat.lt_of_mul_lt_mul_left (a := r.partitions)
    rw [Nat.mul_add,Nat.mul_add]
    omega
  rw [rowsIn_eq positive low order h,Nat.card_Ico]
  generalize r.covered/r.partitions = share at least most
  omega

theorem balanced (order : r.first ≤ r.last) (on : r.last < r.grid.rows) : r.Balanced := by
  have spread : (r.last-r.first)*r.partitions < 2^64 :=
    Nat.lt_of_le_of_lt (Nat.mul_le_mul_right _ (Nat.le_succ _)) low
  constructor
  case covers => exact ⟨order,on⟩
  case steps => exact Guarded.partitionOfRow_eq order positive low
  case inside => exact r.partitionOfRow_lt positive
  case mono => exact fun row row' le => partitionOfRow_mono spread le
  case north => exact fun row h => partitionOfRow_north order h
  case south => exact fun row h => partitionOfRow_south h
  case even =>
    intro p hp q hq
    have most := (rowsIn_card positive low order hp).2
    have least := (rowsIn_card positive low order hq).1
    omega
  case filled =>
    intro enough p hp
    have least := (rowsIn_card positive low order hp).1
    have one : 0 < r.covered/r.partitions := Nat.div_pos enough positive
    exact Finset.card_pos.mp (by omega)
  case bins => exact fun bin bin' le => partitionOfRow_mono spread (Grid.rowOf_mono le)

end

/-- Whatever rows are given, on the grid or not and in whatever order, those that are covered are shared
out evenly among the partitions, if their number times that of the partitions is a word. -/
theorem ofRows_balanced (g : Grid) (partitions first last : Nat)
    (low : (ofRows g partitions first last).covered*max partitions 1 < 2^64) :
    Guarded.rowsGiven g partitions first last = .ok (ofRows g partitions first last) ∧
      (ofRows g partitions first last).partitions = max partitions 1 ∧
      (ofRows g partitions first last).Balanced := by
  have order : (ofRows g partitions first last).first ≤ (ofRows g partitions first last).last :=
    Nat.min_le_right _ _
  have on : (ofRows g partitions first last).last < g.rows := g.clampRow_lt last
  have positive : 0 < (ofRows g partitions first last).partitions := Nat.le_max_right _ _
  exact ⟨Guarded.rowsGiven_eq g partitions first last,rfl,balanced positive low order on⟩

/-- Eight rows for three partitions, the last row given being far to the south of the grid. -/
theorem ofRows_balanced_eight : ∃ g : Grid,g.rows = 8 ∧
    (ofRows g 3 0 40).covered*max 3 1 < 2^64 ∧ (ofRows g 3 0 40).Balanced ∧
    (List.range 10).map (ofRows g 3 0 40).partitionOfRow = [0,0,0,1,1,1,2,2,2,2] := by
  let g : Grid := .ofColumns #[3,9,13,16,16,13,9,3] (by decide) (by decide)
  exact ⟨g,rfl,by decide,(ofRows_balanced g 3 0 40 (by decide)).2.2,by decide⟩

end RowRouting

end GlobeBins

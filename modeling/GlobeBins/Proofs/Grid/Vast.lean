import GlobeBins.Proofs.Grid.Centers
import GlobeBins.Proofs.Grid.Numbering
import GlobeBins.Proofs.Numeric.Monotone

namespace GlobeBins

namespace Grid

section

variable {rows row row' : Nat}

theorem share_finite (pos : 0 < rows) (inside : row < 2^64) :
    let middle := Binary64.ofNat row+Binary64.half
    middle.isFinite = true ∧ (middle*Binary64.ofNat 180).isFinite = true ∧
      (middle*Binary64.ofNat 180/Binary64.ofNat rows).isFinite = true := by
  intro middle
  have whole := (Binary64.within_ofNat inside.le).add Binary64.within_half (by decide)
  have height := Binary64.within_ofNat (b := 8) (show 180 ≤ 2^8 by decide)
  have product := whole.mul height (by decide)
  exact ⟨whole.finite (by decide),product.finite (by decide),
    (product.div_ofNat (by decide) pos).finite (by decide)⟩

theorem ofNat_finite (pos : 0 < rows) (word : rows ≤ 2^64) :
    (Binary64.ofNat rows).isFinite = true ∧ 0 < (Binary64.ofNat rows).magnitude := by
  refine ⟨(Binary64.within_ofNat word).finite (by decide),?_⟩
  rw [(Binary64.ofNat_eq rows).2]
  have one : 0 < Format.double.round 1 1 := by decide +kernel
  exact Nat.lt_of_lt_of_le one (Format.round_mono Nat.one_pos Nat.one_pos (by omega))

/-- Southward the middles of rows do not rise. -/
theorem centerLatitude_antitone (word : rows ≤ 2^64) (south : row ≤ row') (inside : row' < rows) :
    (centerLatitude rows row' : Binary64) ≤ centerLatitude rows row := by
  have pos : 0 < rows := by omega
  obtain ⟨middle,product,share⟩ := share_finite pos (show row < 2^64 by omega)
  obtain ⟨middle',product',share'⟩ := share_finite pos (show row' < 2^64 by omega)
  obtain ⟨divisor,some⟩ := ofNat_finite pos word
  have half : Binary64.half.isFinite = true := by decide
  have height : (Binary64.ofNat 180).isFinite = true := by decide +kernel
  have pole : (Binary64.ofNat 90).isFinite = true := by decide +kernel
  have number (r : Nat) (low : r < 2^64) : (Binary64.ofNat r).isFinite = true :=
    (Binary64.within_ofNat low.le).finite (by decide)
  have first := Binary64.add_le_add (number row (by omega)) (number row' (by omega)) half half
    (Binary64.ofNat_le_ofNat south) (by decide)
  have second := Binary64.mul_le_mul_right middle middle' height (Binary64.ofNat_eq 180).1 first
  have third := Binary64.div_le_div_right product product' divisor (Binary64.ofNat_eq rows).1 second
    some
  exact Binary64.sub_le_sub pole pole share' share (by decide +kernel) third

theorem angle_antitone (word : rows ≤ 2^64) (south : row ≤ row') (inside : row' < rows) :
    centerLatitude rows row'*radian ≤ centerLatitude rows row*radian :=
  Binary64.mul_le_mul_right (centerLatitude_finite (by omega) (by omega))
    (centerLatitude_finite (by omega) (by omega)) (by decide) rfl
    (centerLatitude_antitone word south inside)

end

/-- What the cosine of an angle of one to five quarters is at least, in sixteenths. -/
def arches : List (Nat × Nat) := [(1,15),(2,14),(3,11),(4,8),(5,5)]

/-- A cosine lies between -1 and 1, and does not fall too fast from its top. -/
structure Arched (cosine : Binary64 → Binary64) : Prop where
  least : ∀ x,x.isFinite = true → -1 ≤ cosine x
  greatest : ∀ x,x.isFinite = true → cosine x ≤ 1
  arch : ∀ p ∈ arches,∀ x,-(Binary64.ofNat p.1/4) ≤ x → x ≤ Binary64.ofNat p.1/4 →
    Binary64.ofNat p.2/16 ≤ cosine x

/-- What is always at the top of the first arch lies between the bounds. -/
theorem arched_level : Arched fun _ => Binary64.ofNat 15/16 where
  least _ _ := by decide +kernel
  greatest _ _ := by decide +kernel
  arch p hp _ _ _ := by
    have top : ∀ p ∈ arches,Binary64.ofNat p.2/16 ≤ Binary64.ofNat 15/16 := by decide +kernel
    exact top p hp

/-- A number of rows whose bins are too many for words. -/
def vastRows : Nat := 3000000000

/-- Rows that end at a quarter of the unit angle, on one side of the equator. -/
def quarterRows : Nat := 238732000

theorem vast_angle_finite {row : Nat} (inside : row < vastRows) :
    (centerLatitude vastRows row*radian).isFinite = true := by
  have word : vastRows ≤ 2^64 := by decide
  have last : row ≤ vastRows-1 := by omega
  exact Binary64.finite_of_le (by decide +kernel) (by decide +kernel)
    (angle_antitone word last (by decide)) (angle_antitone word (Nat.zero_le row) inside)

/-- Angles of so many quarters, north and south of the equator. -/
theorem vast_angle_bounds {p : Nat × Nat} (hp : p ∈ arches) {row : Nat}
    (north : vastRows/2-quarterRows*p.1 ≤ row) (south : row < vastRows/2+quarterRows*p.1) :
    -(Binary64.ofNat p.1/4) ≤ centerLatitude vastRows row*radian ∧
      centerLatitude vastRows row*radian ≤ Binary64.ofNat p.1/4 := by
  have ends : ∀ p ∈ arches,vastRows/2+quarterRows*p.1 ≤ vastRows ∧
      centerLatitude vastRows (vastRows/2-quarterRows*p.1)*radian ≤ Binary64.ofNat p.1/4 ∧
      -(Binary64.ofNat p.1/4) ≤
        centerLatitude vastRows (vastRows/2+quarterRows*p.1-1)*radian := by decide +kernel
  obtain ⟨inside,most,least⟩ := ends p hp
  have word : vastRows ≤ 2^64 := by decide
  constructor
  · exact Binary64.le_trans least (angle_antitone word (by omega) (by omega))
  · exact Binary64.le_trans (angle_antitone word north (by omega)) most

/-- The rounded share of the columns keeps the order of the cosines. -/
theorem vast_columns_le {a b : Binary64} (least : -1 ≤ a) (h : a ≤ b) (most : b ≤ 1) :
    (2*Binary64.ofNat vastRows*a+Binary64.half).truncate ≤
      (2*Binary64.ofNat vastRows*b+Binary64.half).truncate := by
  let equator := 2*Binary64.ofNat vastRows
  have finite : equator.isFinite = true := by decide +kernel
  have positive : equator.sign = .positive := by
    rw [Binary64.sign,if_neg (by decide +kernel)]
  have half : Binary64.half.isFinite = true := by decide
  have low : (-1 : Binary64).isFinite = true := by decide +kernel
  have high : (1 : Binary64).isFinite = true := by decide +kernel
  have finite_a := Binary64.finite_of_le low high least (Binary64.le_trans h most)
  have finite_b := Binary64.finite_of_le low high (Binary64.le_trans least h) most
  have product {x y : Binary64} (hx : x.isFinite = true) (hy : y.isFinite = true) (le : x ≤ y) :
      equator*x ≤ equator*y := Binary64.mul_le_mul_left hx hy finite positive le
  have share {x : Binary64} (hx : x.isFinite = true) (low' : -1 ≤ x) (high' : x ≤ 1) :
      (equator*x).isFinite = true :=
    Binary64.finite_of_le (by decide +kernel) (by decide +kernel) (product low hx low')
      (product hx high high')
  exact Binary64.truncate_le_truncate (Binary64.add_le_add
    (share finite_a least (Binary64.le_trans h most)) (share finite_b (Binary64.le_trans least h) most)
    half half (product finite_a finite_b h) (by decide))

section

variable {cosine : Binary64 → Binary64} (arched : Arched cosine) {row : Nat}

include arched

theorem Arched.columnCount_le (inside : row < vastRows) :
    columnCount cosine vastRows row ≤ 6000000000 := by
  have angle := vast_angle_finite inside
  have columns := vast_columns_le (arched.least _ angle) (arched.greatest _ angle) (by decide +kernel)
  have most : (2*Binary64.ofNat vastRows*1+Binary64.half).truncate = 6000000000 := by
    decide +kernel
  rw [most] at columns
  exact Nat.max_le.mpr ⟨columns,by decide⟩

theorem Arched.le_columnCount {p : Nat × Nat} (hp : p ∈ arches)
    (north : vastRows/2-quarterRows*p.1 ≤ row) (south : row < vastRows/2+quarterRows*p.1) :
    375000000*p.2 ≤ columnCount cosine vastRows row := by
  have shares : ∀ p ∈ arches,vastRows/2+quarterRows*p.1 ≤ vastRows ∧
      -1 ≤ Binary64.ofNat p.2/16 ∧ 375000000*p.2 =
        (2*Binary64.ofNat vastRows*(Binary64.ofNat p.2/16)+Binary64.half).truncate := by
    decide +kernel
  obtain ⟨rows,least,columns⟩ := shares p hp
  obtain ⟨low,high⟩ := vast_angle_bounds hp north south
  rw [columns]
  refine (vast_columns_le least (arched.arch p hp _ low high) ?_).trans (Nat.le_max_left _ _)
  exact arched.greatest _ (vast_angle_finite (by omega))

end

variable {g : Grid}

theorem makeWith_columnsAt {cosine : Binary64 → Binary64} {rows row : Nat}
    (h : makeWith cosine rows = .ok g) (inside : row < rows) :
    g.columnsAt row = columnCount cosine rows row := by
  have columns : g.columns = columnCounts cosine rows := by
    unfold makeWith at h
    split at h
    next => cases h
    next =>
      split at h
      next => cases h
      next =>
        cases h
        rfl
  have here := columnsAt_eq (g := g) (makeWith_rows h ▸ inside)
  rw [columns,columnCounts,Array.toList_map,Array.toList_range,List.getElem?_map,
    List.getElem?_range inside] at here
  exact (Option.some.inj here).symm

theorem northOf_add_ge {row n least : Nat} (inside : row+n ≤ g.rows)
    (each : ∀ r,row ≤ r → r < row+n → least ≤ g.columnsAt r) :
    g.northOf row+n*least ≤ g.northOf (row+n) := by
  induction n with
  | zero => simp
  | succ n ih =>
    have before := ih (by omega) fun r low high => each r low (by omega)
    have last := each (row+n) (by omega) (by omega)
    rw [← Nat.add_assoc,northOf_succ (by omega),Nat.succ_mul]
    omega

theorem northOf_le_mul {row most : Nat} (inside : row ≤ g.rows)
    (each : ∀ r < row,g.columnsAt r ≤ most) : g.northOf row ≤ row*most := by
  induction row with
  | zero => rw [northOf_zero,Nat.zero_mul]
  | succ row ih =>
    have before := ih (by omega) fun r low => each r (by omega)
    have last := each row (by omega)
    rw [northOf_succ (by omega),Nat.succ_mul]
    omega

/-- A belt around the equator that is widened by a quarter on both sides. -/
theorem northOf_belt {k least s : Nat} (rows : g.rows = vastRows)
    (inside : quarterRows*(k+1) ≤ vastRows/2)
    (each : ∀ r,vastRows/2-quarterRows*(k+1) ≤ r → r < vastRows/2+quarterRows*(k+1) →
      least ≤ g.columnsAt r)
    (belt : g.northOf (vastRows/2-quarterRows*k)+s ≤ g.northOf (vastRows/2+quarterRows*k)) :
    g.northOf (vastRows/2-quarterRows*(k+1))+(s+2*(quarterRows*least)) ≤
      g.northOf (vastRows/2+quarterRows*(k+1)) := by
  have middle : vastRows/2+vastRows/2 = vastRows := by decide
  have wider : quarterRows*(k+1) = quarterRows*k+quarterRows := Nat.mul_succ _ _
  have north : g.northOf (vastRows/2-quarterRows*(k+1))+quarterRows*least ≤
      g.northOf (vastRows/2-quarterRows*(k+1)+quarterRows) :=
    northOf_add_ge (by omega) fun r low high => each r low (by omega)
  have south : g.northOf (vastRows/2+quarterRows*k)+quarterRows*least ≤
      g.northOf (vastRows/2+quarterRows*k+quarterRows) :=
    northOf_add_ge (by omega) fun r low high => each r (by omega) (by omega)
  rw [show vastRows/2-quarterRows*(k+1)+quarterRows = vastRows/2-quarterRows*k by omega] at north
  rw [Nat.add_assoc,← wider] at south
  omega

section

variable {cosine : Binary64 → Binary64} (arched : Arched cosine)
  (made : makeWith cosine vastRows = .ok g)

include arched made

theorem vast_columnsAt_le {row : Nat} (inside : row < vastRows) :
    g.columnsAt row ≤ 6000000000 := by
  rw [makeWith_columnsAt made inside]
  exact arched.columnCount_le inside

theorem vast_northOf_le {row : Nat} (inside : row ≤ vastRows) :
    g.northOf row ≤ row*6000000000 := by
  refine northOf_le_mul (by rw [makeWith_rows made]; exact inside) fun r low => ?_
  exact vast_columnsAt_le arched made (by omega)

/-- With any such cosine, so many rows have more bins than words have positive numbers, but not more
than words without a sign have. -/
theorem vast_bins : 2^63 < g.bins ∧ g.bins < 2^64 := by
  have rows : g.rows = vastRows := makeWith_rows made
  have least {k c : Nat} (arch : (k,c) ∈ arches) (inside : quarterRows*k ≤ vastRows/2) (r : Nat)
      (north : vastRows/2-quarterRows*k ≤ r) (south : r < vastRows/2+quarterRows*k) :
      375000000*c ≤ g.columnsAt r := by
    have middle : vastRows/2+vastRows/2 = vastRows := by decide
    rw [makeWith_columnsAt made (by omega)]
    exact arched.le_columnCount arch north south
  constructor
  · have none : g.northOf (vastRows/2-quarterRows*0)+0 ≤ g.northOf (vastRows/2+quarterRows*0) :=
      Nat.le_refl _
    have one := northOf_belt rows (by decide) (least (c := 15) (by decide) (by decide)) none
    have two := northOf_belt rows (by decide) (least (c := 14) (by decide) (by decide)) one
    have three := northOf_belt rows (by decide) (least (c := 11) (by decide) (by decide)) two
    have four := northOf_belt rows (by decide) (least (c := 8) (by decide) (by decide)) three
    have five := northOf_belt rows (by decide) (least (c := 5) (by decide) (by decide)) four
    have all : g.northOf (vastRows/2+quarterRows*(0+1+1+1+1+1)) ≤ g.bins := by
      rw [bins_eq,rows]
      exact northOf_le (by decide)
    rw [show quarterRows = 238732000 from rfl] at five all
    omega
  · have most := vast_northOf_le arched made (Nat.le_refl vastRows)
    rw [bins_eq,rows]
    exact Nat.lt_of_le_of_lt most (by decide)

end

end Grid

end GlobeBins

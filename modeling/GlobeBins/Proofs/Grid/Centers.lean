import GlobeBins.Grid
import GlobeBins.Proofs.Grid.Rows
import GlobeBins.Proofs.Numeric.Doubles
import GlobeBins.Proofs.Numeric.Whole

namespace GlobeBins

namespace Format

variable {F : Format} {n d b : Nat}

/-- Powers of two up to the last binade are values of the format. -/
theorem units_two_pow (wide : F.fraction ≤ b+F.scale)
    (last : b+F.scale+1 < F.exponents+F.fraction) :
    F.round (2^b) 1 < F.infinity ∧ F.units (F.round (2^b) 1) = 2^(b+F.scale) := by
  have c : F.Canonical (2^F.fraction) (b+F.scale-F.fraction) :=
    ⟨Nat.pow_lt_pow_right (by decide) (Nat.lt_succ_self _),.inr (Nat.le_refl _)⟩
  have value := c.units
  rw [← pow_add,Nat.add_sub_cancel' wide] at value
  have finite : 2^F.fraction+(b+F.scale-F.fraction)*2^F.fraction < F.infinity := by
    rw [Nat.add_comm,← Nat.succ_mul]
    exact Nat.mul_lt_mul_of_pos_right (by omega) (Nat.two_pow_pos _)
  have same : F.round (2^b) 1 = 2^F.fraction+(b+F.scale-F.fraction)*2^F.fraction := by
    rw [round_whole,← pow_add,← value,round_units,Nat.min_eq_right finite.le]
  rw [same]
  exact ⟨finite,value⟩

end Format

namespace Binary64

open Float.Model.UnpackedFloat

variable {x y : Binary64} {a b : Nat}

/-- The absolute value is at most a power of two. -/
def Within (b : Nat) (x : Binary64) : Prop := x.magnitude ≤ Format.double.round (2^b) 1

theorem two_pow_finite (small : b ≤ 1000) :
    Format.double.round (2^b) 1 < Format.double.infinity ∧
      Format.double.units (Format.double.round (2^b) 1) = 2^(b+Format.double.scale) :=
  Format.units_two_pow (by simp [Format.double]) (by simp [Format.double]; omega)

theorem Within.finite (h : x.Within b) (small : b ≤ 1000) : x.isFinite = true :=
  isFinite_iff.mpr (Nat.lt_of_le_of_lt h (two_pow_finite small).1)

theorem Within.units_le (h : x.Within b) (small : b ≤ 1000) :
    Format.double.units x.magnitude ≤ 2^(b+Format.double.scale) :=
  (Format.units_le.mpr h).trans (two_pow_finite small).2.le

theorem within_ofNat {n : Nat} (h : n ≤ 2^b) : (ofNat n).Within b := by
  rw [Within,(ofNat_eq n).2]
  exact Format.round_mono Nat.one_pos Nat.one_pos (Nat.mul_le_mul_right _ h)

theorem Within.units_bounds (h : x.Within b) (small : b ≤ 1000) :
    -((2^(b+Format.double.scale) : Nat) : Int) ≤ x.units ∧
      x.units ≤ (2^(b+Format.double.scale) : Nat) := by
  have bound := h.units_le small
  rw [units_eq]
  cases x.sign <;> simp only [Sign.apply] <;> omega

theorem within_half : half.Within 64 := by
  unfold Within
  decide +kernel

/-- What lies between two powers of two is rounded to what does. -/
theorem within_of_key {z : Int} (key : x.key = Format.double.nearest z)
    (low : -((2^(b+Format.double.scale) : Nat) : Int) ≤ z)
    (high : z ≤ (2^(b+Format.double.scale) : Nat)) : x.Within b := by
  have power : Format.double.round (2^b) 1 =
      Format.double.round (2^(b+Format.double.scale)) (1 <<< Format.double.scale) := by
    rw [Format.round_whole,← pow_add]
  have below := Format.nearest_mono (F := .double) high
  have above := Format.nearest_mono (F := .double) low
  have ends (s : Sign) := Machine.nearest_apply (F := .double) s (2^(b+Format.double.scale))
  have top := ends .positive
  have bottom := ends .negative
  simp only [Sign.apply] at top bottom
  rw [top,← key,← power] at below
  rw [bottom,← key,← power] at above
  rw [key_eq] at below above
  unfold Within
  cases sign : x.sign <;> rw [sign] at below above <;> simp only [Sign.apply] at below above <;> omega

/-- No sum and no difference has more units than both numbers together. -/
theorem Within.rounded {z : Binary64} {s : Int} (hx : x.Within b) (hy : y.Within b) (small : b < 1000)
    (key : z.key = Format.double.nearest s) (bound : s.natAbs ≤ x.units.natAbs+y.units.natAbs) :
    z.Within (b+1) := by
  obtain ⟨low,high⟩ := hx.units_bounds small.le
  obtain ⟨low',high'⟩ := hy.units_bounds small.le
  have double : 2^(b+1+Format.double.scale) = 2*2^(b+Format.double.scale) := by
    rw [Nat.add_right_comm,pow_succ']
  generalize 2^(b+Format.double.scale) = most at low high low' high' double
  exact within_of_key key (by rw [double]; omega) (by rw [double]; omega)

theorem Within.add (hx : x.Within b) (hy : y.Within b) (small : b < 1000) : (x+y).Within (b+1) :=
  hx.rounded hy small (key_add (hx.finite small.le) (hy.finite small.le)).2 (by omega)

theorem Within.sub (hx : x.Within b) (hy : y.Within b) (small : b < 1000) : (x-y).Within (b+1) :=
  hx.rounded hy small (key_sub (hx.finite small.le) (hy.finite small.le)).2 (by omega)

theorem Within.mul (hx : x.Within a) (hy : y.Within b) (small : a+b ≤ 1000) :
    (x*y).Within (a+b) := by
  rw [Within,(mul_eq (hx.finite (by omega)) (hy.finite (by omega))).2]
  apply Format.round_mono (Nat.two_pow_pos _) Nat.one_pos
  have product := Nat.mul_le_mul (hx.units_le (by omega)) (hy.units_le (by omega))
  rw [Nat.mul_one,← pow_add]
  rw [← pow_add] at product
  exact product.trans (Nat.pow_le_pow_right (by decide) (by omega))

/-- A divisor that is a number from one on, however large, keeps the bound. -/
theorem Within.div_ofNat {n : Nat} (hx : x.Within b) (small : b ≤ 1000) (pos : 0 < n) :
    (x/ofNat n).Within b := by
  have finite := hx.finite small
  have magnitude := (ofNat_eq n).2
  rcases Nat.lt_or_eq_of_le (Format.round_le_infinity .double n 1) with below | infinite
  · obtain ⟨_,unit⟩ := @two_pow_finite 0 (by omega)
    have one : Format.double.round (2^0) 1 ≤ (ofNat n).magnitude := by
      rw [magnitude]
      exact Format.round_mono Nat.one_pos Nat.one_pos (by omega)
    have divisor : 2^Format.double.scale ≤ Format.double.units (ofNat n).magnitude := by
      have := Format.units_le (F := .double) |>.mpr one
      rwa [unit,Nat.zero_add] at this
    have least : 0 < Format.double.round (2^0) 1 := by decide +kernel
    rw [Within,(div_eq finite (isFinite_iff.mpr (magnitude ▸ below)) (least.trans_le one)).2]
    apply Format.round_mono ((Nat.two_pow_pos _).trans_le divisor) Nat.one_pos
    rw [Nat.mul_one]
    have bound := hx.units_le small
    rw [pow_add] at bound
    exact bound.trans (Nat.mul_le_mul_left _ divisor)
  · rw [Within,(div_infinity finite (magnitude.trans infinite)).2]
    exact Nat.zero_le _

end Binary64

namespace Grid

variable {g : Grid}

theorem centerLatitude_finite {rows row : Nat} (pos : 0 < rows) (inside : row < 2^64) :
    (centerLatitude rows row : Binary64).isFinite = true := by
  have middle := (Binary64.within_ofNat inside.le).add Binary64.within_half (by decide)
  have height := Binary64.within_ofNat (b := 8) (show 180 ≤ 2^8 by decide)
  have share := (middle.mul height (by decide)).div_ofNat (by decide) pos
  have pole := Binary64.within_ofNat (b := 73) (show 90 ≤ 2^73 by decide)
  exact (pole.sub share (by decide)).finite (by decide)

/-- No bin has a centre that is not finite, whether it is in the grid or not. -/
theorem center_finite (word : g.rows ≤ 2^64) (bin : Int64) :
    (g.center bin : Binary64 × Binary64).1.isFinite = true ∧
      (g.center bin : Binary64 × Binary64).2.isFinite = true := by
  have rows : 0 < g.rows := g.rows_pos
  refine ⟨centerLatitude_finite rows ((g.clampRow_lt _).trans_le word),?_⟩
  -- the column is at most the bin's number, whatever the columns of the row are
  have number := bin.toInt_lt
  have column (row : Nat) : min bin.toInt.toNat (g.bins-1)-g.firstBin row ≤ 2^64 := by omega
  have middle (row : Nat) := (Binary64.within_ofNat (column row)).add Binary64.within_half (by decide)
  have turn := Binary64.within_ofNat (b := 9) (show 360 ≤ 2^9 by decide)
  have share (row : Nat) := (turn.mul (middle row) (by decide)).div_ofNat (by decide)
    (g.columnsAt_pos row)
  have west := Binary64.within_ofNat (b := 74) (show 180 ≤ 2^74 by decide)
  exact ((share _).sub west (by decide)).finite (by decide)

end Grid

end GlobeBins

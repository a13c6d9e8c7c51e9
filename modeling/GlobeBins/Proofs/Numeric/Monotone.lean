import GlobeBins.Proofs.Numeric.Doubles

namespace GlobeBins

theorem Format.round_zero (F : Format) {d : Nat} (pos : 0 < d) : F.round 0 d = 0 := by
  have none : (0 <<< F.scale : Nat) = 0 := Nat.zero_shiftLeft _
  simp only [round,none,Nat.zero_div,Nat.log2_zero,Nat.zero_sub,Nat.shiftLeft_zero,Nat.zero_shiftLeft,
    nearestEven_zero d pos]
  exact Nat.min_zero _

/-- The integer part counts whole ones among the units. -/
theorem Format.integerPart_eq (F : Format) (h : F.fraction ≤ F.scale) (magnitude : Nat) :
    F.integerPart magnitude = F.units magnitude >>> F.scale := by
  unfold integerPart units
  simp only
  split
  next small =>
    rw [Nat.shiftRight_eq_div_pow,Nat.div_eq_of_lt]
    exact Nat.lt_of_lt_of_le small (Nat.pow_le_pow_right (by decide) h)
  next =>
    split
    next low =>
      obtain ⟨d,hd⟩ := Nat.exists_eq_add_of_le low
      rw [hd,Nat.add_sub_cancel_left,Nat.shiftRight_add,Nat.shiftLeft_shiftRight]
    next high =>
      obtain ⟨d,hd⟩ := Nat.exists_eq_add_of_le (Nat.le_of_not_le high)
      rw [hd,Nat.add_sub_cancel_left,Nat.add_comm F.scale d,Nat.shiftLeft_add,
        Nat.shiftLeft_shiftRight]

namespace Binary64

open Float.Model.UnpackedFloat

variable {x y x' y' c : Binary64}

theorem le_def : x ≤ y ↔ x.isNaN = false ∧ y.isNaN = false ∧ x.key ≤ y.key := by
  change x.lessEq y = true ↔ _
  simp [lessEq,and_assoc]

theorem le_trans {z : Binary64} (h : x ≤ y) (k : y ≤ z) : x ≤ z := by
  rw [le_def] at *
  exact ⟨h.1,k.2.1,h.2.2.trans k.2.2⟩

/-- A number between finite ones is finite. -/
theorem finite_of_le {z : Binary64} (hx : x.isFinite = true) (hz : z.isFinite = true) (h : x ≤ y)
    (k : y ≤ z) : y.isFinite = true :=
  finite_between hx hz (le_def.mp h).2.2 (le_def.mp k).2.2

theorem add_le_add (hx : x.isFinite = true) (hx' : x'.isFinite = true) (hy : y.isFinite = true)
    (hy' : y'.isFinite = true) (h : x ≤ x') (k : y ≤ y') : x+y ≤ x'+y' := by
  obtain ⟨number,key⟩ := key_add hx hy
  obtain ⟨number',key'⟩ := key_add hx' hy'
  have units := (le_iff hx hx').mp h
  have units' := (le_iff hy hy').mp k
  rw [le_def,key,key']
  exact ⟨number,number',Format.nearest_mono (by omega)⟩

theorem sub_le_sub (hx : x.isFinite = true) (hx' : x'.isFinite = true) (hy : y.isFinite = true)
    (hy' : y'.isFinite = true) (h : x ≤ x') (k : y' ≤ y) : x-y ≤ x'-y' := by
  obtain ⟨number,key⟩ := key_sub hx hy
  obtain ⟨number',key'⟩ := key_sub hx' hy'
  have units := (le_iff hx hx').mp h
  have units' := (le_iff hy' hy).mp k
  rw [le_def,key,key']
  exact ⟨number,number',Format.nearest_mono (by omega)⟩

theorem isNaN_eq_false : x.isNaN = false ↔ x.magnitude ≤ Format.double.infinity := by
  rw [isNaN,decide_eq_false_iff_not,Nat.not_lt]

/-- Magnitudes that are rounded in the same way keep their order under the signs that they had. -/
theorem le_of_rounded {u v : Binary64} {d : Nat} (scaled : Nat → Nat) (pos : 0 < d)
    (zero : scaled 0 = 0) (mono : ∀ {a b : Nat},a ≤ b → scaled a ≤ scaled b)
    (hu : u.sign = x.sign ∧ u.magnitude = Format.double.round (scaled x.magnitude) d)
    (hv : v.sign = y.sign ∧ v.magnitude = Format.double.round (scaled y.magnitude) d)
    (h : x.key ≤ y.key) : u ≤ v := by
  have order {a b : Nat} (le : a ≤ b) :
      Format.double.round (scaled a) d ≤ Format.double.round (scaled b) d :=
    Format.round_mono pos pos (Nat.mul_le_mul_right _ (mono le))
  have none : Format.double.round (scaled 0) d = 0 := by rw [zero,Format.round_zero _ pos]
  rw [le_def,isNaN_eq_false,isNaN_eq_false,key_eq,key_eq,hu.1,hu.2,hv.1,hv.2]
  refine ⟨Format.round_le_infinity _ _ _,Format.round_le_infinity _ _ _,?_⟩
  rw [key_eq,key_eq] at h
  generalize x.sign = s at h ⊢
  generalize y.sign = t at h ⊢
  cases s <;> cases t <;> simp only [Sign.apply] at h ⊢
  · have := order (a := y.magnitude) (b := x.magnitude) (by omega)
    omega
  · omega
  · obtain ⟨left,right⟩ : x.magnitude = 0 ∧ y.magnitude = 0 := by omega
    rw [left,right,none]
    exact Int.le_refl _
  · have := order (a := x.magnitude) (b := y.magnitude) (by omega)
    omega

section

variable (hx : x.isFinite = true) (hy : y.isFinite = true) (hc : c.isFinite = true)
  (positive : c.sign = .positive) (h : x ≤ y)

include hx hy hc positive h

theorem mul_le_mul_right : x*c ≤ y*c := by
  have product {z : Binary64} (hz : z.isFinite = true) : (z*c).sign = z.sign ∧ (z*c).magnitude =
      Format.double.round (Format.double.units z.magnitude*Format.double.units c.magnitude)
        (2^(2*Format.double.scale)) := by
    obtain ⟨sign,magnitude⟩ := mul_eq hz hc
    rw [sign,positive]
    exact ⟨by cases z.sign <;> rfl,magnitude⟩
  refine le_of_rounded (fun n => Format.double.units n*Format.double.units c.magnitude)
    (Nat.two_pow_pos _) (Nat.zero_mul _) ?_ (product hx) (product hy) (le_def.mp h).2.2
  exact fun le => Nat.mul_le_mul_right _ (Format.units_le.mpr le)

theorem mul_le_mul_left : c*x ≤ c*y := by
  have product {z : Binary64} (hz : z.isFinite = true) : (c*z).sign = z.sign ∧ (c*z).magnitude =
      Format.double.round (Format.double.units c.magnitude*Format.double.units z.magnitude)
        (2^(2*Format.double.scale)) := by
    obtain ⟨sign,magnitude⟩ := mul_eq hc hz
    rw [sign,positive]
    exact ⟨by cases z.sign <;> rfl,magnitude⟩
  refine le_of_rounded (fun n => Format.double.units c.magnitude*Format.double.units n)
    (Nat.two_pow_pos _) (Nat.mul_zero _) ?_ (product hx) (product hy) (le_def.mp h).2.2
  exact fun le => Nat.mul_le_mul_left _ (Format.units_le.mpr le)

theorem div_le_div_right (pos : 0 < c.magnitude) : x/c ≤ y/c := by
  have quotient {z : Binary64} (hz : z.isFinite = true) : (z/c).sign = z.sign ∧ (z/c).magnitude =
      Format.double.round (Format.double.units z.magnitude) (Format.double.units c.magnitude) := by
    obtain ⟨sign,magnitude⟩ := div_eq hz hc pos
    rw [sign,positive]
    exact ⟨by cases z.sign <;> rfl,magnitude⟩
  have divisor : 0 < Format.double.units c.magnitude :=
    Nat.lt_of_le_of_lt (Nat.zero_le _) (Format.units_lt pos)
  exact le_of_rounded Format.double.units divisor rfl (fun le => Format.units_le.mpr le)
    (quotient hx) (quotient hy) (le_def.mp h).2.2

end

theorem ofNat_le_ofNat {n m : Nat} (h : n ≤ m) : ofNat n ≤ ofNat m := by
  obtain ⟨sign,magnitude⟩ := ofNat_eq n
  obtain ⟨sign',magnitude'⟩ := ofNat_eq m
  rw [le_def,isNaN_eq_false,isNaN_eq_false,key_eq,key_eq,sign,sign',magnitude,magnitude']
  refine ⟨Format.round_le_infinity _ _ _,Format.round_le_infinity _ _ _,Int.ofNat_le.mpr ?_⟩
  exact Format.round_mono Nat.one_pos Nat.one_pos (Nat.mul_le_mul_right _ h)

theorem truncate_le_truncate (h : x ≤ y) : x.truncate ≤ y.truncate := by
  obtain ⟨number,number',order⟩ := le_def.mp h
  unfold truncate
  rw [number,number',Bool.false_or,Bool.false_or]
  unfold key at order
  by_cases negative : x.isNegative = true
  · rw [if_pos negative]
    exact Nat.zero_le _
  by_cases negative' : y.isNegative = true
  · have none : x.magnitude = 0 := by
      rw [if_neg negative,if_pos negative'] at order
      omega
    rw [if_neg negative,if_pos negative',none]
    exact Nat.min_le_left _ _
  · rw [if_neg negative,if_neg negative'] at order ⊢
    have units : Format.double.units x.magnitude ≤ Format.double.units y.magnitude :=
      Format.units_le.mpr (by omega)
    have part : Format.double.integerPart x.magnitude ≤ Format.double.integerPart y.magnitude := by
      rw [Format.integerPart_eq _ (by decide),Format.integerPart_eq _ (by decide),
        Nat.shiftRight_eq_div_pow,Nat.shiftRight_eq_div_pow]
      exact Nat.div_le_div_right units
    omega

end Binary64

end GlobeBins

import GlobeBins.Geometry.Orientation
import GlobeBins.Proofs.Geometry.Transfer
import GlobeBins.Proofs.Geometry.Reach
import GlobeBins.Proofs.Numeric.Doubles

namespace GlobeBins

theorem atLeastTwo_two : Nat.AtLeastTwo 2 := inferInstance

-- Quotients and literals of real numbers, not those of a type of coordinates.
attribute [local instance (high)] DivInvMonoid.toDiv atLeastTwo_two

/-- The number that a finite double is. -/
noncomputable def Binary64.toReal (x : Binary64) : ℝ := x.units/2^1074

namespace Orientation

/-- All turns between some points are the exact ones. -/
def ExactOn (ps : List (Point Binary64)) : Prop :=
  ∀ a ∈ ps,∀ b ∈ ps,∀ c ∈ ps,turn a b c = .ofInt (exactUnits a b c)

/-- Moderate coordinates are enough for that. -/
theorem exactOn_of_moderate {ps : List (Point Binary64)}
    (moderate : ∀ p ∈ ps,isModerate p.x = true ∧ isModerate p.y = true) : ExactOn ps := by
  intro a ha b hb c hc
  rw [turn,if_pos]
  simp only [List.all_cons,List.all_nil,moderate a ha,moderate b hb,moderate c hc]
  rfl

end Orientation

open Binary64 (toReal)

theorem Turn.ofSign_ofInt (n : Int) {c : ℝ} (pos : 0 < c) : Turn.ofSign (n/c) = .ofInt n := by
  rcases lt_trichotomy n 0 with neg | rfl | plus
  · have below : (n : ℝ)/c < 0 := div_neg_of_neg_of_pos (by exact_mod_cast neg) pos
    rw [Turn.ofSign_right.mpr below,Turn.ofInt,if_neg (by omega),if_pos neg]
  · rw [Turn.ofSign_straight.mpr (by simp)]
    rfl
  · have above : 0 < (n : ℝ)/c := div_pos (by exact_mod_cast plus) pos
    rw [Turn.ofSign_left.mpr above,Turn.ofInt,if_pos plus]

theorem area_toReal (a b c : Point Binary64) :
    (a.map toReal).area (b.map toReal) (c.map toReal) =
      (Orientation.exactUnits a b c : ℝ)/(2^1074*2^1074) := by
  simp only [Point.area,Point.map,toReal,Orientation.exactUnits]
  push_cast
  field_simp

theorem Binary64.toReal_le {x y : Binary64} : x.toReal ≤ y.toReal ↔ x.units ≤ y.units := by
  rw [toReal,toReal,div_le_div_iff_of_pos_right (by positivity),Int.cast_le]

/-- Some points and the numbers that they are. -/
theorem Faithful.toReal {ps : List (Point Binary64)} (exact : Orientation.ExactOn ps)
    (finite : ∀ p ∈ ps,p.x.isFinite = true ∧ p.y.isFinite = true) :
    Faithful Binary64.toReal (fun x => x.isFinite = true) (fun p => p ∈ ps) where
  x hp := (finite _ hp).1
  y hp := (finite _ hp).2
  lt ha hb := by rw [Binary64.lt_iff ha hb,← not_le,Binary64.toReal_le,not_le]
  le ha hb := by rw [Binary64.le_iff ha hb,Binary64.toReal_le]
  turn {a b c} ha hb hc := by
    have sign : Coordinate.turn a b c = .ofInt (Orientation.exactUnits a b c) :=
      exact a ha b hb c hc
    rw [turn_eq,area_toReal,Turn.ofSign_ofInt _ (by positivity),sign]

theorem Binary64.toReal_of_equal {x y : Binary64} (h : Coordinate.equal x y = true) :
    x.toReal = y.toReal := by
  have order {x y : Binary64} (h : x ≤ y) : x.toReal ≤ y.toReal := by
    have keys : x.lessEq y = true := h
    simp only [lessEq,Bool.and_eq_true,decide_eq_true_eq] at keys
    exact toReal_le.mpr (key_le_iff.mp keys.2)
  simp only [Coordinate.equal,Bool.and_eq_true,decide_eq_true_eq] at h
  exact le_antisymm (order h.1) (order h.2)

/-- Closing a ring of doubles closes the ring of numbers. -/
theorem Ring.close_closed (r : Ring Binary64) :
    Closed ((close r).map (Point.map Binary64.toReal)) := by
  unfold Closed
  match r with
  | [] => rfl
  | p::ps =>
    rw [close]
    split
    next same =>
      simp only [Point.equal,Bool.and_eq_true] at same
      have ends : p.map Binary64.toReal = ((p::ps).getLast (by simp)).map Binary64.toReal :=
        Point.ext (Binary64.toReal_of_equal same.1) (Binary64.toReal_of_equal same.2)
      rw [List.getLast?_map,List.getLast?_eq_some_getLast (List.cons_ne_nil p ps),Option.map_some,
        ← ends]
      rfl
    next =>
      rw [List.getLast?_map,List.getLast?_concat]
      rfl

end GlobeBins

import CreditRating.Score
import CreditRating.Proofs.Score.Share

/-!
Numbers brought into [0, 1]. The clamp gives every number a place in the range
and leaves alone what is no number. What it has to do is stated apart from how it is done.
-/

namespace CreditRating

open Binary

theorem clampUnit_of_isNaN {x : Float} (h : x.isNaN) : clampUnit x = x := by
  rw [clampUnit, if_neg fun hlt => ?_, if_neg fun hlt => ?_]
  · rw [(isNaN_of_lt hlt).2] at h
    cases h
  · rw [(isNaN_of_lt hlt).1] at h
    cases h

theorem isNaN_clampUnit (x : Float) : (clampUnit x).isNaN = x.isNaN := by
  cases h : x.isNaN with
  | true => rw [clampUnit_of_isNaN h, h]
  | false =>
      rw [clampUnit]
      split
      · exact isNaN_of_isFinite Factor.isFinite_zero
      · split
        · exact isNaN_of_isFinite Factor.isFinite_one
        · exact h

/-- Among quantities the clamp is that of the rational numbers. -/
theorem quantity_clampUnit {x : Float} (h : x.isNaN = false) :
    quantity (clampUnit x) = max 0 (min 1 (quantity x)) := by
  have zero := isNaN_of_isFinite Factor.isFinite_zero
  have one := isNaN_of_isFinite Factor.isFinite_one
  rw [clampUnit]
  split
  · next low =>
      rw [lt_iff h zero, Factor.quantity_zero] at low
      rw [Factor.quantity_zero, max_eq_left (min_le_of_right_le low.le)]
  · next low =>
      rw [lt_iff h zero, Factor.quantity_zero, not_lt] at low
      split
      · next high =>
          rw [lt_iff one h, Factor.quantity_one] at high
          rw [Factor.quantity_one, min_eq_left high.le, max_eq_right zero_le_one]
      · next high =>
          rw [lt_iff one h, Factor.quantity_one, not_lt] at high
          rw [min_eq_right high, max_eq_right low]

/-- Every number is brought into the range. -/
theorem clampUnit_mem_iff (x : Float) :
    0.0 ≤ clampUnit x ∧ clampUnit x ≤ 1.0 ↔ x.isNaN = false := by
  constructor
  · intro h
    rw [← isNaN_clampUnit]
    exact (isNaN_of_le h.1).2
  · intro h
    have hn := (isNaN_clampUnit x).trans h
    rw [le_iff (isNaN_of_isFinite Factor.isFinite_zero) hn,
      le_iff hn (isNaN_of_isFinite Factor.isFinite_one), quantity_clampUnit h,
      Factor.quantity_zero, Factor.quantity_one]
    exact ⟨le_max_left 0 _, max_le zero_le_one (min_le_left 1 _)⟩

/-- The second number is the first one brought into [0, 1]: outside it is the bound on that side,
within it is the number itself, and what is no number stays as it is. -/
structure ClampOf (x y : Float) : Prop where
  below : x < 0.0 → y = 0.0
  above : 1.0 < x → y = 1.0
  within : 0.0 ≤ x → x ≤ 1.0 → y = x
  undefined : x.isNaN → y = x
  bounds : x.isNaN = false → 0.0 ≤ y ∧ y ≤ 1.0

theorem not_lt_of_le {x y : Float} (h : x ≤ y) : ¬ y < x := by
  intro hlt
  obtain ⟨nx, ny⟩ := isNaN_of_le h
  rw [lt_iff ny nx] at hlt
  exact ((le_iff nx ny).1 h).not_gt hlt

theorem clampOf_clampUnit (x : Float) : ClampOf x (clampUnit x) where
  below low := if_pos low
  above high := by
    have low : ¬ x < 0.0 := by
      intro low
      rw [lt_iff (isNaN_of_lt low).1 (isNaN_of_lt low).2, Factor.quantity_zero] at low
      rw [lt_iff (isNaN_of_lt high).1 (isNaN_of_lt high).2, Factor.quantity_one] at high
      exact (low.trans one_pos).not_gt high
    rw [clampUnit, if_neg low, if_pos high]
  within low high := by
    rw [clampUnit, if_neg (not_lt_of_le low), if_neg (not_lt_of_le high)]
  undefined := clampUnit_of_isNaN
  bounds number := (clampUnit_mem_iff x).2 number

end CreditRating

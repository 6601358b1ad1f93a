import CreditRating.Proofs.Binary.Neutral

/-!
The signs of numbers. A zero has a sign as well, and so has a product that is too small to be
told from zero: it is the negative zero just if the signs of its factors differ.
-/

namespace CreditRating
namespace Binary

open Float.Model (UnpackedFloat Format)
open Float.Model.UnpackedFloat

variable {x y : Float}

/-- The sign in front of a number; a plus where there is no number. -/
def signOf : UnpackedFloat → Sign
  | .finite s _ _ _ | .infinity s | .zero s => s
  | .notANumber => .positive

def sign (x : Float) : Sign := signOf (unpacked x)

theorem quantity_eq_signed (x : Float) : quantity x = signed (sign x) |quantity x| := by
  rw [quantity, sign]
  generalize unpacked x = u
  cases u with
  | notANumber => exact abs_zero.symm
  | zero s => cases s <;> simp [value, signOf, signed]
  | infinity s => rw [value, abs_signed, abs_of_pos far_pos, signOf]
  | finite s m e hm => rw [value, abs_signed, abs_of_pos (value_pos e hm), signOf]

theorem isNegativeZero_iff (hx : x.isNaN = false) :
    IsNegativeZero x ↔ sign x = .negative ∧ quantity x = 0 := by
  rw [isNaN_eq] at hx
  rw [IsNegativeZero, sign, quantity, value_eq_zero_iff hx]
  constructor
  · intro h
    rw [h]
    exact ⟨rfl, _, rfl⟩
  · rintro ⟨negative, s, hs⟩
    rw [hs] at negative ⊢
    exact congrArg _ negative

/-- Numbers below zero have a minus sign, and beside them the negative zero. -/
theorem sign_eq_negative_iff (hx : x.isNaN = false) :
    sign x = .negative ↔ quantity x < 0 ∨ IsNegativeZero x := by
  have eq := quantity_eq_signed x
  have size := abs_nonneg (quantity x)
  rw [isNegativeZero_iff hx]
  constructor
  · intro negative
    rw [negative, signed] at eq
    by_cases zero : quantity x = 0
    · exact .inr ⟨negative, zero⟩
    · exact .inl (lt_of_le_of_ne (by linarith) zero)
  · rintro (below | ⟨negative, -⟩)
    · cases hs : sign x with
      | negative => rfl
      | positive =>
          rw [hs, signed] at eq
          linarith
    · exact negative

theorem mul_eq_negative_iff (s t : Sign) : s * t = .negative ↔ (s = .negative ↔ t ≠ .negative) := by
  cases s with
  | negative =>
      cases t with
      | negative => exact iff_of_false nofun fun h => h.1 rfl rfl
      | positive => exact iff_of_true rfl ⟨nofun, fun _ => rfl⟩
  | positive =>
      cases t with
      | negative => exact iff_of_true rfl ⟨nofun, fun h => absurd rfl h⟩
      | positive => exact iff_of_false nofun fun h => nomatch h.2 nofun

/-- Rounding keeps the sign, also of what becomes a zero. -/
theorem IsRounding.signOf_eq {s : Sign} {q : ℚ} {u : UnpackedFloat} (h : IsRounding s q u) :
    signOf u = s := by
  cases u with
  | notANumber | infinity _ => exact h.elim
  | zero _ | finite _ _ _ _ => exact h.1

theorem signOf_capped (u : UnpackedFloat) : signOf (capped u) = signOf u := by
  cases u with
  | notANumber | infinity _ | zero _ => rfl
  | finite s m e hm =>
      rw [capped]
      split <;> rfl

/-- The sign of a product comes from the signs of its factors, zeros included. -/
theorem sign_mul (hx : x.isFinite) (hy : y.isFinite) : sign (x * y) = sign x * sign y := by
  have product : unpacked (x * y) = capped (mul Format.binary64 (unpacked x) (unpacked y)) :=
    unpacked_pack (canonical_mul (fits_unpacked x) (fits_unpacked y))
  have fx := fits_unpacked x
  have fy := fits_unpacked y
  rw [isFinite_eq] at hx hy
  rw [sign, product, signOf_capped, sign, sign]
  generalize unpacked x = u at *
  generalize unpacked y = v at *
  cases u with
  | notANumber | infinity _ => cases hx
  | zero s =>
      cases v with
      | notANumber | infinity _ => cases hy
      | zero _ | finite _ _ _ _ => rfl
  | finite s m e hm =>
      cases v with
      | notANumber | infinity _ => cases hy
      | zero _ => rfl
      | finite t n f hn =>
          exact (isRounding_exact (s * t) (Nat.mul_pos hm hn)
            (fx.1.mul_le_gridExponent fy.1 hm hn)).signOf_eq

/-- Only what is at most half the least step is rounded to zero. -/
theorem rounded_eq_zero_iff (q : ℚ) : rounded q = 0 ↔ |q| ≤ 2 ^ (-1075 : ℤ) := by
  have half : (2 : ℚ) ^ (-1075 : ℤ) = 2 ^ (-1074 : ℤ) / 2 := by
    rw [show (-1074 : ℤ) = -1075 + 1 by norm_num, two_zpow_add]
    norm_num
  constructor
  · intro zero
    have off := abs_sub_rounded_le q
    rw [zero, sub_zero] at off
    have least : gridExponent q = -1074 := by
      by_contra other
      have low := grid_le_abs (q := q) (by have := least_le_gridExponent q; omega)
      rw [two_zpow_add] at low
      have := two_zpow_pos (gridExponent q)
      norm_num at low
      linarith
    rwa [least, ← half] at off
  · intro small
    have least : gridExponent q = -1074 := by
      refine gridExponent_eq le_rfl (small.trans_lt ?_) (.inr rfl)
      exact zpow_lt_zpow_right₀ one_lt_two (by norm_num)
    have near : nearest (q / 2 ^ (-1074 : ℤ)) = 0 := by
      refine nearest_eq ?_ (.inl rfl)
      rw [Int.cast_zero, sub_zero, abs_div, abs_of_pos (two_zpow_pos (-1074)),
        div_le_iff₀ (two_zpow_pos (-1074))]
      linarith
    rw [rounded_of_gridExponent least, near, Int.cast_zero, zero_mul]

/-- Half the least positive number and all below it vanish. -/
theorem bounded_eq_zero_iff (q : ℚ) : bounded q = 0 ↔ |q| ≤ 2 ^ (-1075 : ℤ) := by
  have ht := top_pos
  have hf := far_pos
  rw [← rounded_eq_zero_iff, bounded]
  split_ifs with high low
  · exact iff_of_false hf.ne' (by linarith)
  · exact iff_of_false (by linarith) (by linarith)
  · rfl

/-- A product is the negative zero if its factors have different signs and no number but zero
is so small. -/
theorem isNegativeZero_mul_iff (hx : x.isNaN = false) (hy : y.isFinite) (pos : 0 ≤ quantity y)
    (number : (x * y).isNaN = false) :
    IsNegativeZero (x * y) ↔ (sign x = .negative ↔ sign y ≠ .negative) ∧
      |quantity x * quantity y| ≤ 2 ^ (-1075 : ℤ) := by
  rw [isNegativeZero_iff number]
  cases fx : x.isFinite with
  | true => rw [sign_mul fx hy, mul_eq_negative_iff, quantity_mul fx hy, bounded_eq_zero_iff]
  | false =>
      -- a product that is infinite, since an infinite number times zero is none
      have nonzero : quantity y ≠ 0 := by
        intro zero
        rw [(isNaN_mul_iff hx hy).2 ⟨fx, zero⟩] at number
        cases number
      have infinite : |quantity x| = far := by
        obtain h | h := quantity_of_infinite hx fx
        · rw [h, abs_of_pos far_pos]
        · rw [h, abs_neg, abs_of_pos far_pos]
      have large : (2 : ℚ) ^ (-1075 : ℤ) < |quantity y| := by
        rw [← not_le, ← bounded_eq_zero_iff, bounded_quantity]
        exact nonzero
      refine iff_of_false ?_ ?_
      · rintro ⟨-, zero⟩
        rw [quantity_mul_infinite hx fx hy (lt_of_le_of_ne pos nonzero.symm)] at zero
        rw [zero, abs_zero] at infinite
        exact far_pos.ne infinite
      · rintro ⟨-, small⟩
        have one : (1 : ℚ) ≤ far := one_le_zpow₀ one_le_two (by norm_num)
        rw [abs_mul, infinite] at small
        exact absurd (small.trans_lt large)
          (not_lt.2 (le_mul_of_one_le_left (abs_nonneg _) one))

end Binary
end CreditRating

import CreditRating.Proofs.Binary.Order

/-!
Numbers that an operation does not see. A zero of either sign adds nothing, except to the
negative zero, and no sum with another number is the negative zero. Two numbers that stand
for the same quantity are equal unless they are zeros.
-/

namespace CreditRating
namespace Binary

open Float.Model (UnpackedFloat Format)
open Float.Model.UnpackedFloat

variable {x y z : Float}

theorem signed_injective {s t : Sign} {p q : ℚ} (hp : 0 < p) (hq : 0 < q)
    (h : signed s p = signed t q) : s = t ∧ p = q := by
  cases s with
  | positive =>
      cases t with
      | positive => exact ⟨rfl, h⟩
      | negative =>
          have below : p = -q := h
          linarith
  | negative =>
      cases t with
      | positive =>
          have below : -p = q := h
          linarith
      | negative => exact ⟨rfl, neg_injective h⟩

theorem Fits.value_ne_infinity {u : UnpackedFloat} (hu : Fits u) (finite : u.isFinite)
    (s : Sign) : value u ≠ value (.infinity s) := by
  intro h
  have size := hu.abs_value_lt finite
  rw [h, value, abs_signed, abs_of_pos far_pos, far_eq] at size
  linarith [top_pos]

/-- Among numbers that are not zero, a quantity has one form. -/
theorem value_injective {u v : UnpackedFloat} (hu : Fits u) (hv : Fits v) (nonzero : value u ≠ 0)
    (h : value u = value v) : u = v := by
  cases u with
  | notANumber | zero _ => exact absurd rfl nonzero
  | infinity s =>
      cases v with
      | notANumber | zero _ => exact absurd h nonzero
      | infinity t => rw [(signed_injective far_pos far_pos h).1]
      | finite t n f hn => exact absurd h.symm (hv.value_ne_infinity rfl s)
  | finite s m e hm =>
      cases v with
      | notANumber | zero _ => exact absurd h nonzero
      | infinity t => exact absurd h (hu.value_ne_infinity rfl t)
      | finite t n f hn =>
          obtain ⟨rfl, sizes⟩ := signed_injective (value_pos e hm) (value_pos f hn) h
          obtain ⟨rfl, rfl⟩ := hu.1.unique hv.1 sizes
          rfl

/-- Only the two zeros stand for the same quantity. -/
theorem eq_of_quantity_eq (h : quantity x = quantity y) (nonzero : quantity x ≠ 0) : x = y :=
  unpacked_injective (value_injective (fits_unpacked x) (fits_unpacked y) nonzero h)

def IsNegativeZero (x : Float) : Prop := unpacked x = .zero .negative

theorem not_isNegativeZero_zero : ¬ IsNegativeZero 0.0 := nofun

theorem unpacked_add (x y : Float) :
    unpacked (x + y) = capped (add Format.binary64 (unpacked x) (unpacked y)) :=
  unpacked_pack (canonical_add (fits_unpacked x) (fits_unpacked y))

/-- What is at least the smallest step is not rounded to zero. -/
theorem IsRounding.ne_zero {s t : Sign} {q : ℚ} {u : UnpackedFloat} (h : IsRounding s q u)
    (least : 2 ^ (-1074 : ℤ) ≤ q) : u ≠ .zero t := by
  rintro rfl
  have step : rounded (2 ^ (-1074 : ℤ)) = 2 ^ (-1074 : ℤ) := by
    simpa using rounded_eq_self (m := 1) (e := -1074) (by norm_num) le_rfl
  have low := rounded_mono least
  rw [step, h.2] at low
  exact absurd low (not_le.2 (two_zpow_pos _))

/-- An exact sum on a grid is zero or at least one step of the grid. -/
theorem normalize_ne_zero {m e : ℤ} (hm : m ≠ 0) (he : -1074 ≤ e) (s t : Sign) :
    UnpackedFloat.normalize Format.binary64 m e s ≠ .zero t := by
  have least {n : ℕ} (hn : 0 < n) : (2 : ℚ) ^ (-1074 : ℤ) ≤ n * 2 ^ e := by
    have whole : (1 : ℚ) ≤ n := by exact_mod_cast hn
    calc (2 : ℚ) ^ (-1074 : ℤ) ≤ 2 ^ e := two_zpow_le he
      _ = 1 * 2 ^ e := (one_mul _).symm
      _ ≤ n * 2 ^ e := mul_le_mul_of_nonneg_right whole (two_zpow_pos e).le
  obtain hm | rfl | hm := lt_trichotomy m 0
  · rw [UnpackedFloat.normalize, Int.compare_eq_lt.2 hm]
    have pos : 0 < (-m).toNat := by omega
    exact (isRounding_round .negative e pos).ne_zero (least pos)
  · exact absurd rfl hm
  · rw [UnpackedFloat.normalize, Int.compare_eq_gt.2 hm]
    have pos : 0 < m.toNat := by omega
    exact (isRounding_round .positive e pos).ne_zero (least pos)

/-- Numbers that cancel leave the positive zero. -/
theorem add_eq_negative_zero {u v : UnpackedFloat} (hu : Fits u) (hv : Fits v)
    (h : add Format.binary64 u v = .zero .negative) : u = .zero .negative := by
  cases u with
  | notANumber => cases h
  | infinity s =>
      cases v with
      | infinity t => cases s <;> cases t <;> cases h
      | notANumber | zero _ | finite _ _ _ _ => cases h
  | zero s =>
      cases v with
      | notANumber | infinity _ | finite _ _ _ _ => cases h
      | zero t => cases s <;> cases t <;> first | rfl | cases h
  | finite s m e hm =>
      cases v with
      | notANumber | infinity _ | zero _ => cases h
      | finite t n f hn =>
          rw [UnpackedFloat.add] at h
          have least : -1074 ≤ min e f := le_min hu.1.least hv.1.least
          by_cases sum : s.apply (decreaseExponent m e (min e f)).1 +
            t.apply (decreaseExponent n f (min e f)).1 = (0 : ℤ)
          · dsimp only at h
            rw [sum] at h
            cases h
          · exact absurd h (normalize_ne_zero sum least _ _)

theorem capped_eq_zero_iff {u : UnpackedFloat} {s : Sign} : capped u = .zero s ↔ u = .zero s := by
  cases u with
  | notANumber | infinity _ | zero _ => exact Iff.rfl
  | finite t m e hm =>
      rw [capped]
      split <;> simp only [reduceCtorEq]

/-- A sum is the negative zero only if both terms are. -/
theorem not_isNegativeZero_add (h : ¬ IsNegativeZero x) (y : Float) :
    ¬ IsNegativeZero (x + y) := by
  intro sum
  rw [IsNegativeZero, unpacked_add, capped_eq_zero_iff] at sum
  exact h (add_eq_negative_zero (fits_unpacked x) (fits_unpacked y) sum)

theorem not_isNegativeZero_sub (h : ¬ IsNegativeZero x) (y : Float) :
    ¬ IsNegativeZero (x - y) := by
  intro difference
  have sum := canonical_add (fits_unpacked x) (fits_unpacked y).neg
  have unpacked_sub : unpacked (x - y) = capped (sub Format.binary64 (unpacked x) (unpacked y)) :=
    unpacked_pack (sub_eq_add _ _ _ ▸ sum)
  rw [IsNegativeZero, unpacked_sub, sub_eq_add, capped_eq_zero_iff] at difference
  exact h (add_eq_negative_zero (fits_unpacked x) (fits_unpacked y).neg difference)

theorem add_zero_model {u : UnpackedFloat} (h : u ≠ .zero .negative) (s : Sign) :
    add Format.binary64 u (.zero s) = u := by
  cases u with
  | notANumber | infinity _ | finite _ _ _ _ => rfl
  | zero t =>
      cases t with
      | negative => exact absurd rfl h
      | positive => cases s <;> rfl

/-- Either zero can be added without a change to all but the negative zero. -/
theorem add_of_quantity_zero (hx : ¬ IsNegativeZero x) (hz : z.isNaN = false)
    (h : quantity z = 0) : x + z = x := by
  obtain ⟨s, hs : unpacked z = .zero s⟩ := (value_eq_zero_iff hz).1 h
  apply unpacked_injective
  rw [unpacked_add, hs, add_zero_model hx, (fits_unpacked x).capped_eq]

/-- What stands for the same quantity makes the same sum. -/
theorem add_eq_add_of_quantity_eq (hx : ¬ IsNegativeZero x) (hy : y.isNaN = false)
    (hz : z.isNaN = false) (h : quantity y = quantity z) : x + y = x + z := by
  by_cases zero : quantity y = 0
  · rw [add_of_quantity_zero hx hy zero, add_of_quantity_zero hx hz (h ▸ zero)]
  · rw [eq_of_quantity_eq h zero]

/-- Subtracting the positive zero changes no number, not even the negative zero. -/
theorem sub_of_unpacked_zero (x : Float) (h : unpacked z = .zero .positive) : x - z = x := by
  apply unpacked_injective
  have same (u : UnpackedFloat) : sub Format.binary64 u (.zero .positive) = u := by
    cases u with
    | notANumber | infinity _ | finite _ _ _ _ => rfl
    | zero s => cases s <;> rfl
  have difference : unpacked (x - z) = capped (sub Format.binary64 (unpacked x) (unpacked z)) := by
    refine unpacked_pack ?_
    change Canonical (sub Format.binary64 (unpacked x) (unpacked z))
    rw [h, same]
    exact (fits_unpacked x).canonical
  rw [difference, h, same, (fits_unpacked x).capped_eq]

/-- The number 1 is neutral for all numbers, also for those that are infinite or none. -/
theorem mul_of_quantity_one (x : Float) (hz : z.isFinite) (h : quantity z = 1) : x * z = x := by
  have product : unpacked (x * z) = capped (mul Format.binary64 (unpacked x) (unpacked z)) :=
    unpacked_pack (canonical_mul (fits_unpacked x) (fits_unpacked z))
  obtain ⟨m, e, hm, hu⟩ := unpacked_of_pos hz (by rw [h]; exact one_pos)
  by_cases ordinary : x.isFinite ∧ quantity x ≠ 0
  · have same : quantity (x * z) = quantity x := by
      rw [quantity_mul ordinary.1 hz, h, mul_one, bounded_quantity]
    exact (eq_of_quantity_eq same.symm ordinary.2).symm
  · apply unpacked_injective
    rw [product, hu]
    cases hx : unpacked x with
    | notANumber => rfl
    | infinity s | zero s => cases s <;> rfl
    | finite s n f hn =>
        refine absurd ⟨by rw [isFinite_eq, hx]; rfl, ?_⟩ ordinary
        rw [quantity, hx, Ne, value_eq_zero_iff rfl]
        rintro ⟨t, ht⟩
        cases ht

end Binary
end CreditRating

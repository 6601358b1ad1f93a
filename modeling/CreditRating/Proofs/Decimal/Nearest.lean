import CreditRating.Proofs.Decimal.Basin

/-!
Rounding of decimals. What a coefficient and a power of ten give is the nearest
number, as long as the power is one that the model computes.
-/

namespace CreditRating
namespace Decimal

open Binary
open Float.Model (UnpackedFloat Format)
open Float.Model.UnpackedFloat

theorem isRounding_ofScientific {c : ℕ} {k : ℤ} (hc : 0 < c) (low : -2048 ≤ k)
    (high : k ≤ 2048) :
    IsRounding .positive (c * 10 ^ k) (UnpackedFloat.ofScientific Format.binary64 c k) := by
  have bits : (2 : ℤ) ^ Format.binary64.exponentBits = 2048 := by decide
  rw [UnpackedFloat.ofScientific, dif_neg hc.ne', bits, if_neg (by omega), if_neg (by omega)]
  split
  · next nonneg =>
      have pow : (10 : ℚ) ^ k = (10 ^ k.toNat : ℕ) := by
        push_cast
        rw [← zpow_natCast, Int.toNat_of_nonneg nonneg]
      have scaled : ((c <<< 53 * 10 ^ k.toNat : ℕ) : ℚ) * 2 ^ (-53 + 0 : ℤ) = c * 10 ^ k := by
        rw [Nat.shiftLeft_eq, pow]
        push_cast
        norm_num
        ring
      have pos : 0 < c <<< 53 * 10 ^ k.toNat := by
        rw [Nat.shiftLeft_eq]
        positivity
      have large : (1 : ℚ) ≤ c * 10 ^ k := by
        have : 1 ≤ c * 10 ^ k.toNat := Nat.mul_pos hc (by positivity)
        rw [pow]
        exact_mod_cast this
      have grid : (-53 + 0 : ℤ) ≤ gridExponent (c * 10 ^ k) := by
        by_contra hlt
        have small := abs_lt_grid (c * 10 ^ k)
        have : (2 : ℚ) ^ (gridExponent (c * 10 ^ k) + 53) ≤ 2 ^ (0 : ℤ) := two_zpow_le (by omega)
        rw [abs_of_nonneg (by linarith)] at small
        rw [zpow_zero] at this
        linarith
      rw [← scaled] at grid ⊢
      exact isRounding_exact .positive pos grid
  · next negative =>
      have h := isRounding_div .positive (m := c) (n := 10 ^ (-k).toNat) 0 0 hc (by positivity)
      have quotient : (c * 2 ^ (0 : ℤ) / ((10 ^ (-k).toNat : ℕ) * 2 ^ (0 : ℤ)) : ℚ) =
          c * 10 ^ k := by
        push_cast
        rw [← zpow_natCast, Int.toNat_of_nonneg (by omega), zpow_neg, mul_one, mul_one,
          div_inv_eq_mul]
      rw [← quotient]
      exact h

theorem unpacked_round {c m : ℕ} {k e : ℤ} {hm : 0 < m} (hc : 0 < c) (low : -2048 ≤ k)
    (high : k ≤ 2048) (fits : Fits (.finite .positive m e hm))
    (h : rounded (c * 10 ^ k) = m * 2 ^ e) :
    unpacked (round c k) = .finite .positive m e hm := by
  have same : UnpackedFloat.ofScientific Format.binary64 c k = .finite .positive m e hm :=
    (isRounding_ofScientific hc low high).unique (q := m * 2 ^ e)
      ⟨rfl, fits.1, fits.1.rounded.symm⟩ (h.trans fits.1.rounded.symm)
  have : round c k = .ofModel (.pack (.finite .positive m e hm)) := by
    rw [← same]
    rfl
  rw [this, unpacked_pack_of_fits fits]

theorem unpacked_round_zero (k : ℤ) : unpacked (round 0 k) = .zero .positive := by
  have : round 0 k = .ofModel (.pack (.zero .positive)) := rfl
  rw [this]
  exact unpacked_pack_of_fits (u := .zero .positive) trivial

end Decimal
end CreditRating

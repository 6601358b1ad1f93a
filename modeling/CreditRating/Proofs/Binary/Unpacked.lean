import CreditRating.Proofs.Binary.Rounding
import Mathlib

/-!
The rounding step of the binary64 model. Its mantissas with a round and a sticky
bit say where a quantity lies among the integers; shifting keeps what they say,
and the number that comes out is the rounded quantity in its one normal form.
-/

namespace CreditRating
namespace Binary

open Float.Model
open Float.Model.UnpackedFloat

/-- What a mantissa and its accuracy say about a quantity. -/
def Lies (q : ℚ) (m : ℕ) : Accuracy → Prop
  | .exact => q = m
  | .inexact .lt => m < q ∧ q < m + 1 / 2
  | .inexact .eq => q = m + 1 / 2
  | .inexact .gt => m + 1 / 2 < q ∧ q < m + 1

theorem Lies.le {q : ℚ} {m : ℕ} {a : Accuracy} (h : Lies q m a) : m ≤ q := by
  obtain _ | _ | _ | _ := a <;> simp only [Lies] at h <;> linarith

theorem Lies.lt {q : ℚ} {m : ℕ} {a : Accuracy} (h : Lies q m a) : q < m + 1 := by
  obtain _ | _ | _ | _ := a <;> simp only [Lies] at h <;> linarith

/-- The accuracy tells on which side of the half a quantity lies, so rounding by it is exact. -/
theorem Lies.nearest {q : ℚ} {m : ℕ} {a : Accuracy} (h : Lies q m a) :
    (a.roundToNearestEven m : ℤ) = Binary.nearest q := by
  symm
  obtain _ | _ | _ | _ := a <;> simp only [Lies] at h <;>
    simp only [Accuracy.roundToNearestEven]
  · rw [h]
    exact_mod_cast nearest_intCast m
  · refine nearest_of_abs_sub_lt (abs_lt.2 ⟨?_, ?_⟩) <;> push_cast <;> linarith
  · obtain hm | hm : m % 2 = 0 ∨ m % 2 = 1 := by omega
    all_goals
      refine nearest_of_abs_sub_eq ?_ (by rw [hm]; omega)
      rw [h, hm]
      push_cast
      rw [abs_eq (by norm_num)]
    · left; ring
    · right; ring
  · refine nearest_of_abs_sub_lt (abs_lt.2 ⟨?_, ?_⟩) <;> push_cast <;> linarith

def Holds (em : ExtendedMantissa) (q : ℚ) : Prop := Lies q em.mantissa em.accuracy

theorem Lies.holds {q : ℚ} {m : ℕ} {a : Accuracy} (h : Lies q m a) :
    Holds (.ofMantissaAndAccuracy m a) q := by
  obtain _ | _ | _ | _ := a <;> exact h

theorem Holds.shiftRightOne {em : ExtendedMantissa} {q : ℚ} (h : Holds em q) :
    Holds em.shiftRightOne (q / 2) := by
  obtain ⟨m, r, s⟩ := em
  have split : (m : ℚ) = 2 * (m / 2 : ℕ) + (m % 2 : ℕ) := by
    exact_mod_cast (Nat.div_add_mod m 2).symm
  obtain hm | hm : m % 2 = 0 ∨ m % 2 = 1 := by omega
  all_goals
    rw [hm] at split
    push_cast at split
    cases r <;> cases s <;>
      simp only [Holds, Lies, ExtendedMantissa.accuracy, ExtendedMantissa.shiftRightOne, hm,
        Bool.or_true, Bool.or_false, bne_self_eq_false, show (1 != 0) = true from rfl] at h ⊢ <;>
      first | linarith | constructor <;> linarith

/-- The two bits below the mantissa keep what shifting would lose. -/
theorem Holds.shiftRight {em : ExtendedMantissa} {q : ℚ} (h : Holds em q) (n : ℕ) :
    Holds (em >>> n) (q / 2 ^ n) := by
  change Holds (n.repeat ExtendedMantissa.shiftRightOne em) _
  induction n with
  | zero => simpa [Nat.repeat] using h
  | succ n ih =>
      rw [Nat.repeat, pow_succ, ← div_div]
      exact ih.shiftRightOne

/-- The form in which the model keeps a positive number: all 53 places are used
unless the exponent is the least one. -/
structure Normal (m : ℕ) (e : ℤ) : Prop where
  lt : m < 2 ^ 53
  least : -1074 ≤ e
  full : 2 ^ 52 ≤ m ∨ e = -1074

/-- A number in its normal form has the exponent of its grid. -/
theorem Normal.gridExponent {m : ℕ} {e : ℤ} (h : Normal m e) :
    Binary.gridExponent (m * 2 ^ e) = e := by
  have habs : |(m * 2 ^ e : ℚ)| = m * 2 ^ e :=
    abs_of_nonneg (mul_nonneg m.cast_nonneg (two_zpow_pos e).le)
  refine gridExponent_eq h.least ?_ (h.full.imp_left fun hm => ?_) <;>
    rw [habs, add_comm, two_zpow_add]
  · exact mul_lt_mul_of_pos_right (by exact_mod_cast h.lt) (two_zpow_pos e)
  · exact mul_le_mul_of_nonneg_right (by exact_mod_cast hm) (two_zpow_pos e).le

theorem Normal.rounded {m : ℕ} {e : ℤ} (h : Normal m e) :
    Binary.rounded (m * 2 ^ e) = m * 2 ^ e := by
  have hm := h.lt
  exact_mod_cast rounded_eq_self (m := m) (e := e) (by rw [abs_of_nonneg] <;> omega) h.least

/-- A number has one normal form. -/
theorem Normal.unique {m n : ℕ} {e f : ℤ} (h : Normal m e) (h' : Normal n f)
    (eq : (m * 2 ^ e : ℚ) = n * 2 ^ f) : m = n ∧ e = f := by
  have hef : e = f := by rw [← h.gridExponent, eq, h'.gridExponent]
  subst hef
  exact ⟨by exact_mod_cast mul_right_cancel₀ (two_zpow_pos e).ne' eq, rfl⟩

/-- A number with the given sign and the rounded quantity as its size. There is
no bound on the size yet. -/
def IsRounding (s : Sign) (q : ℚ) : UnpackedFloat → Prop
  | .zero t => t = s ∧ rounded q = 0
  | .finite t m e _ => t = s ∧ Normal m e ∧ m * 2 ^ e = rounded q
  | _ => False

theorem IsRounding.unique {s : Sign} {p q : ℚ} {u v : UnpackedFloat} (hu : IsRounding s p u)
    (hv : IsRounding s q v) (h : rounded p = rounded q) : u = v := by
  cases u with
  | infinity _ | notANumber => exact hu.elim
  | zero _ =>
      cases v with
      | infinity _ | notANumber => exact hv.elim
      | zero _ => rw [hu.1, hv.1]
      | finite _ n f hn =>
          have : (n * 2 ^ f : ℚ) = 0 := by rw [hv.2.2, ← h, hu.2]
          exact absurd this (mul_pos (by exact_mod_cast hn) (two_zpow_pos f)).ne'
  | finite _ m e hm =>
      cases v with
      | infinity _ | notANumber => exact hv.elim
      | zero _ =>
          have : (m * 2 ^ e : ℚ) = 0 := by rw [hu.2.2, h, hv.2]
          exact absurd this (mul_pos (by exact_mod_cast hm) (two_zpow_pos e)).ne'
      | finite _ n f hn =>
          obtain ⟨rfl, hm', hme⟩ := hu
          obtain ⟨rfl, hn', hnf⟩ := hv
          obtain ⟨rfl, rfl⟩ := hm'.unique hn' (by rw [hme, hnf, h])
          rfl

theorem targetExponent_eq (t : ℤ) :
    Format.binary64.targetExponent t = max (t - 53) (-1074) := rfl

/-- The model aims at the grid of the quantity. -/
theorem Lies.targetExponent {q : ℚ} {m : ℕ} {e : ℤ} {a : Accuracy} (hq : 0 < q)
    (h : Lies (q / 2 ^ e) m a) (he : m = 0 → e ≤ Binary.gridExponent q) :
    Format.binary64.targetExponent (totalExponent m e) = Binary.gridExponent q := by
  have hpos := two_zpow_pos e
  have lower := h.le
  have upper := h.lt
  rw [le_div_iff₀ hpos] at lower
  rw [div_lt_iff₀ hpos] at upper
  rw [targetExponent_eq, totalExponent]
  by_cases hm : m = 0
  · -- Less than one unit is left, so the grid of the quantity is the finest one.
    have he := he hm
    have hg : Binary.gridExponent q = -1074 := by
      by_contra hn
      have hl := grid_le_abs (q := q) (by have := least_le_gridExponent q; omega)
      rw [abs_of_pos hq] at hl
      have : (2 : ℚ) ^ e ≤ 2 ^ (Binary.gridExponent q + 52) := two_zpow_le (by omega)
      rw [hm] at upper
      norm_num at upper
      linarith
    rw [hg] at he ⊢
    rw [hm, Nat.log2_zero]
    omega
  · have hlo : (2 : ℚ) ^ (m.log2 : ℤ) ≤ m := by exact_mod_cast Nat.log2_self_le hm
    have hhi : (m : ℚ) + 1 ≤ 2 ^ ((m.log2 : ℤ) + 1) := by
      exact_mod_cast Nat.lt_log2_self (n := m)
    symm
    refine gridExponent_eq (le_max_right _ _) ?_ ?_ <;> rw [abs_of_pos hq]
    · calc q < (m + 1) * 2 ^ e := upper
        _ ≤ 2 ^ ((m.log2 : ℤ) + 1) * 2 ^ e := mul_le_mul_of_nonneg_right hhi hpos.le
        _ = 2 ^ ((m.log2 : ℤ) + 1 + e) := (two_zpow_add _ _).symm
        _ ≤ _ := two_zpow_le (by omega)
    · by_cases hmin : (m.log2 : ℤ) + 1 + e - 53 ≤ -1074
      · exact .inr (max_eq_right hmin)
      · left
        calc (2 : ℚ) ^ (max ((m.log2 : ℤ) + 1 + e - 53) (-1074) + 52)
            = 2 ^ ((m.log2 : ℤ) + e) := by congr 1; omega
          _ = 2 ^ (m.log2 : ℤ) * 2 ^ e := two_zpow_add _ _
          _ ≤ m * 2 ^ e := mul_le_mul_of_nonneg_right hlo hpos.le
          _ ≤ q := lower

theorem shiftToExponent_eq (m : ℕ) {e t : ℤ} (a : Accuracy) (h : e ≤ t) :
    shiftToExponent m e a t =
      (ExtendedMantissa.ofMantissaAndAccuracy m a >>> (t - e).toNat, t) := by
  simp only [shiftToExponent, Prod.mk.injEq, true_and]
  omega

/-- A mantissa that fits stays as it is. -/
theorem shiftToTargetExponent_of_lt {m : ℕ} {e : ℤ} (hm : m < 2 ^ 53) (he : -1074 ≤ e) :
    shiftToTargetExponent Format.binary64 m e .exact = (⟨m, false, false⟩, e) := by
  have hlog : m.log2 < 53 := by
    by_cases hz : m = 0
    · rw [hz, Nat.log2_zero]; omega
    · exact (Nat.log2_lt hz).2 hm
  have shift : (Format.binary64.targetExponent (totalExponent m e) - e).toNat = 0 := by
    rw [targetExponent_eq, totalExponent]
    omega
  rw [shiftToTargetExponent, shiftToExponent, shift]
  simp [HShiftRight.hShiftRight, Nat.repeat, ExtendedMantissa.ofMantissaAndAccuracy]

/-- The one mantissa that rounding can bring out of range is halved. -/
theorem shiftToTargetExponent_two_pow {e : ℤ} (he : -1074 ≤ e) :
    shiftToTargetExponent Format.binary64 (2 ^ 53) e .exact =
      (⟨2 ^ 52, false, false⟩, e + 1) := by
  have shift : (Format.binary64.targetExponent (totalExponent (2 ^ 53) e) - e).toNat = 1 := by
    rw [targetExponent_eq, totalExponent, Nat.log2_two_pow]
    omega
  rw [shiftToTargetExponent, shiftToExponent, shift]
  rfl

/-- The model rounds every positive quantity that its mantissa and accuracy describe to the grid. -/
theorem isRounding_roundWithAccuracy (s : Sign) {m : ℕ} {e : ℤ} {a : Accuracy} {q : ℚ}
    (hq : 0 < q) (he : e ≤ gridExponent q) (h : Lies (q / 2 ^ e) m a) :
    IsRounding s q (roundWithAccuracy Format.binary64 s m e a) := by
  have least := least_le_gridExponent q
  set t := gridExponent q with ht
  have first : shiftToTargetExponent Format.binary64 m e a =
      (ExtendedMantissa.ofMantissaAndAccuracy m a >>> (t - e).toNat, t) := by
    rw [shiftToTargetExponent, h.targetExponent hq fun _ => he, shiftToExponent_eq m a he]
  set em := ExtendedMantissa.ofMantissaAndAccuracy m a >>> (t - e).toNat
  have shifted : Holds em (q / 2 ^ t) := by
    have hs := h.holds.shiftRight (t - e).toNat
    rwa [div_div, ← zpow_natCast, Int.toNat_of_nonneg (by omega), ← two_zpow_add,
      add_sub_cancel] at hs
  have size : (em.roundedMantissa : ℚ) * 2 ^ t = rounded q := by
    have hn : (em.roundedMantissa : ℤ) = nearest (q / 2 ^ t) := shifted.nearest
    rw [rounded, ← ht, ← hn]
    push_cast
    rfl
  have le_top : em.roundedMantissa ≤ 2 ^ 53 := by
    have hle := rounded_le_top hq.le
    rw [← size, ← ht, add_comm, two_zpow_add] at hle
    exact_mod_cast le_of_mul_le_mul_right hle (two_zpow_pos t)
  have full : 2 ^ 52 ≤ em.roundedMantissa ∨ t = -1074 := by
    by_cases hmin : t = -1074
    · exact .inr hmin
    · have hle := bottom_le_rounded hq.le (by omega)
      rw [← size, ← ht, add_comm, two_zpow_add] at hle
      exact .inl (by exact_mod_cast le_of_mul_le_mul_right hle (two_zpow_pos t))
  rw [roundWithAccuracy, first]
  obtain hlt | htop := le_top.lt_or_eq
  · simp only [shiftToTargetExponent_of_lt hlt least]
    split
    · next hz => exact ⟨rfl, by rw [← size, hz]; simp⟩
    · exact ⟨rfl, ⟨hlt, least, full⟩, size⟩
  · simp only [htop, shiftToTargetExponent_two_pow least]
    refine ⟨rfl, ⟨by norm_num, by omega, .inl le_rfl⟩, ?_⟩
    rw [← size, htop, two_zpow_add]
    push_cast
    ring

end Binary
end CreditRating

import CreditRating.Proofs.Binary.Packing

/-!
Arithmetic of the binary64 model. An operation on numbers gives the exact result
rounded, and an infinite number when that is too large. Infinite numbers take
part in the order as if they were the power of two after the largest number.
-/

namespace CreditRating
namespace Binary

open Float.Model (UnpackedFloat Format totalExponent)
open Float.Model.UnpackedFloat

def signed : Sign → ℚ → ℚ
  | .negative, q => -q
  | .positive, q => q

theorem abs_signed (s : Sign) (q : ℚ) : |signed s q| = |q| := by
  cases s
  · exact abs_neg q
  · rfl

theorem signed_neg (s : Sign) (q : ℚ) : signed (-s) q = -signed s q := by
  cases s
  · exact (neg_neg q).symm
  · rfl

theorem signed_apply (s : Sign) (m : ℕ) (q : ℚ) : (s.apply m : ℤ) * q = signed s (m * q) := by
  cases s <;> simp [Sign.apply, signed]

theorem rounded_signed (s : Sign) (q : ℚ) : rounded (signed s q) = signed s (rounded q) := by
  cases s
  · exact rounded_neg q
  · rfl

/-- The size from which on a number is infinite. -/
def top : ℚ := 2 ^ (1024 : ℤ)

/-- The size that an infinite number stands for. No number is large enough to
bring it back into the range. -/
def far : ℚ := 2 ^ (1026 : ℤ)

theorem top_pos : 0 < top := two_zpow_pos 1024

theorem far_pos : 0 < far := two_zpow_pos 1026

theorem far_eq : far = 4 * top := by
  rw [far, show (1026 : ℤ) = 2 + 1024 by norm_num, two_zpow_add, top]
  norm_num

theorem rounded_top : rounded top = top := by
  simpa [top] using rounded_eq_self (m := 1) (e := 1024) (by norm_num) (by norm_num)

/-- What a number stands for; 0 for what is no number. -/
def value : UnpackedFloat → ℚ
  | .finite s m e _ => signed s (m * 2 ^ e)
  | .infinity s => signed s far
  | .zero _ | .notANumber => 0

/-- The rounded quantity, which is infinite outside of the range. -/
def bounded (q : ℚ) : ℚ :=
  if top ≤ rounded q then far else if rounded q ≤ -top then -far else rounded q

/-- Rounding with overflow keeps the order, for the infinite value lies beyond all others. -/
theorem bounded_mono {p q : ℚ} (h : p ≤ q) : bounded p ≤ bounded q := by
  have hr := rounded_mono h
  have ht := top_pos
  have hf := far_eq
  rw [bounded, bounded]
  split_ifs <;> linarith

theorem bounded_neg (q : ℚ) : bounded (-q) = -bounded q := by
  have ht := top_pos
  rw [bounded, bounded, rounded_neg]
  split_ifs <;> linarith

theorem bounded_signed (s : Sign) (q : ℚ) : bounded (signed s q) = signed s (bounded q) := by
  cases s
  · exact bounded_neg q
  · rfl

theorem bounded_of_abs_lt {q : ℚ} (h : |rounded q| < top) : bounded q = rounded q := by
  obtain ⟨h1, h2⟩ := abs_lt.1 h
  rw [bounded, if_neg (not_le.2 h2), if_neg (not_le.2 h1)]

theorem bounded_of_top_le {q : ℚ} (h : top ≤ q) : bounded q = far :=
  if_pos (rounded_top ▸ rounded_mono h)

@[simp] theorem bounded_zero : bounded 0 = 0 := by
  rw [bounded_of_abs_lt, rounded_zero]
  rw [rounded_zero, abs_zero]
  exact top_pos

theorem bounded_far : bounded far = far :=
  bounded_of_top_le (by linarith [far_eq, top_pos])

theorem rounded_intCast {m : ℤ} (h : |m| ≤ 2 ^ 53) : rounded m = m := by
  simpa using rounded_eq_self (e := 0) h (by norm_num)

theorem lt_top_of_le {q : ℚ} (h : q ≤ 2 ^ 53) : q < top := by
  have ht : (2 : ℚ) ^ (53 : ℤ) < top := zpow_lt_zpow_right₀ one_lt_two (by norm_num)
  exact h.trans_lt (by exact_mod_cast ht)

/-- Whole numbers up to 2 ^ 53 are exact. -/
theorem bounded_intCast {m : ℤ} (h : |m| ≤ 2 ^ 53) : bounded m = m := by
  have hm : |(m : ℚ)| ≤ 2 ^ 53 := by exact_mod_cast h
  rw [bounded_of_abs_lt, rounded_intCast h]
  rw [rounded_intCast h]
  exact lt_top_of_le hm

/-- A normal form is in the range just if its exponent fits. -/
theorem Normal.lt_top_iff {m : ℕ} {e : ℤ} (h : Normal m e) : m * 2 ^ e < top ↔ e ≤ 971 := by
  constructor
  · intro hlt
    by_contra hn
    have hm : (2 : ℚ) ^ (52 : ℤ) ≤ m := by exact_mod_cast h.full.resolve_right (by omega)
    have h1 : (2 : ℚ) ^ (1024 : ℤ) ≤ 2 ^ (52 + e) := two_zpow_le (by omega)
    have h2 := mul_le_mul_of_nonneg_right hm (two_zpow_pos e).le
    rw [← two_zpow_add] at h2
    exact absurd hlt (not_lt.2 (h1.trans h2))
  · intro he
    have hm : (m : ℚ) < 2 ^ (53 : ℤ) := by exact_mod_cast h.lt
    calc (m * 2 ^ e : ℚ) < 2 ^ (53 : ℤ) * 2 ^ e := mul_lt_mul_of_pos_right hm (two_zpow_pos e)
      _ = 2 ^ (53 + e) := (two_zpow_add _ _).symm
      _ ≤ top := two_zpow_le (by omega)

theorem Fits.abs_value_lt {u : UnpackedFloat} (h : Fits u) (fu : u.isFinite) :
    |value u| < top := by
  cases u with
  | infinity _ | notANumber => cases fu
  | zero _ => simpa [value] using top_pos
  | finite s m e hm =>
      rw [value, abs_signed, abs_of_nonneg (mul_nonneg m.cast_nonneg (two_zpow_pos e).le)]
      exact h.1.lt_top_iff.2 h.2

theorem Fits.rounded_value {u : UnpackedFloat} (h : Fits u) (fu : u.isFinite) :
    rounded (value u) = value u := by
  cases u with
  | infinity _ | notANumber => cases fu
  | zero _ => exact rounded_zero
  | finite s m e hm => rw [value, rounded_signed, h.1.rounded]

/-- What a number stands for is not rounded again. -/
theorem Fits.bounded_value {u : UnpackedFloat} (h : Fits u) : bounded (value u) = value u := by
  cases u with
  | infinity s => rw [value, bounded_signed, bounded_far]
  | notANumber => exact bounded_zero
  | zero _ | finite _ _ _ _ =>
      rw [bounded_of_abs_lt, h.rounded_value rfl]
      rw [h.rounded_value rfl]
      exact h.abs_value_lt rfl

/-- The number that an exact quantity is rounded to, before it is packed. -/
structure Gives (q : ℚ) (u : UnpackedFloat) : Prop where
  canonical : Canonical u
  value_eq : value (capped u) = bounded q

theorem Fits.gives {u : UnpackedFloat} (h : Fits u) : Gives (value u) u :=
  ⟨h.canonical, by rw [h.capped_eq, h.bounded_value]⟩

theorem gives_zero (s : Sign) : Gives 0 (.zero s) :=
  ⟨trivial, bounded_zero.symm⟩

/-- Packing a rounded number is where it may overflow. -/
theorem IsRounding.gives {s : Sign} {q : ℚ} {u : UnpackedFloat} (h : IsRounding s q u) :
    Gives (signed s q) u := by
  cases u with
  | infinity _ | notANumber => exact h.elim
  | zero t =>
      refine ⟨trivial, ?_⟩
      rw [bounded_signed, bounded_of_abs_lt, h.2]
      · cases s <;> simp [signed, capped, value]
      · simpa [h.2] using top_pos
  | finite t m e hm =>
      obtain ⟨rfl, normal, size⟩ := h
      have hpos : (0 : ℚ) ≤ m * 2 ^ e := mul_nonneg m.cast_nonneg (two_zpow_pos e).le
      refine ⟨normal, ?_⟩
      by_cases he : 971 < e
      · have hle : top ≤ rounded q := by
          rw [← size]
          exact not_lt.1 fun hlt => absurd (normal.lt_top_iff.1 hlt) (not_le.2 he)
        rw [capped, if_pos he, bounded_signed, value, bounded, if_pos hle]
      · have hlt := normal.lt_top_iff.2 (not_lt.1 he)
        rw [capped, if_neg he, bounded_signed, bounded_of_abs_lt, value, size]
        rwa [← size, abs_of_nonneg hpos]

theorem isRounding_exact (s : Sign) {m : ℕ} {e : ℤ} (hm : 0 < m)
    (he : e ≤ gridExponent (m * 2 ^ e)) :
    IsRounding s (m * 2 ^ e) (roundWithAccuracy Format.binary64 s m e .exact) := by
  refine isRounding_roundWithAccuracy s (mul_pos (by exact_mod_cast hm) (two_zpow_pos e)) he ?_
  exact mul_div_cancel_right₀ _ (two_zpow_pos e).ne'

theorem decreaseExponent_eq (m : ℕ) (e t : ℤ) :
    ((decreaseExponent m e t).1 * 2 ^ (decreaseExponent m e t).2 : ℚ) = m * 2 ^ e := by
  simp only [decreaseExponent, Nat.shiftLeft_eq]
  push_cast
  rw [← zpow_natCast, mul_assoc, ← two_zpow_add]
  congr 2
  omega

/-- The rounding of the model is the rounding of rational numbers. -/
theorem isRounding_round (s : Sign) {m : ℕ} (e : ℤ) (hm : 0 < m) :
    IsRounding s (m * 2 ^ e) (round Format.binary64 s m e) := by
  have hpos : (0 : ℚ) < m * 2 ^ e := mul_pos (by exact_mod_cast hm) (two_zpow_pos e)
  have target : Format.binary64.targetExponent (totalExponent m e) = gridExponent (m * 2 ^ e) :=
    Lies.targetExponent (a := .exact) hpos (mul_div_cancel_right₀ _ (two_zpow_pos e).ne')
      fun h => absurd h hm.ne'
  have same := decreaseExponent_eq m e (gridExponent (m * 2 ^ e))
  simp only [UnpackedFloat.round, target]
  generalize hd : decreaseExponent m e (gridExponent (m * 2 ^ e)) = d at same
  have hle : d.2 ≤ gridExponent (m * 2 ^ e) := by
    rw [← hd, decreaseExponent]
    omega
  rw [← same] at hpos hle ⊢
  exact isRounding_exact s (by exact_mod_cast pos_of_mul_pos_left hpos (two_zpow_pos d.2).le) hle

/-- A mantissa of either sign, and the zero that has the given one. -/
theorem gives_normalize (m : ℤ) (e : ℤ) (s : Sign) :
    Gives (m * 2 ^ e) (UnpackedFloat.normalize Format.binary64 m e s) := by
  obtain hm | rfl | hm := lt_trichotomy m 0
  · have h := (isRounding_round .negative (m := (-m).toNat) e (by omega)).gives
    rw [← signed_apply] at h
    rw [UnpackedFloat.normalize, show compare m 0 = .lt from Int.compare_eq_lt.2 hm]
    simpa [Sign.apply, Int.toNat_of_nonneg (show 0 ≤ -m by omega)] using h
  · simpa [UnpackedFloat.normalize] using gives_zero s
  · have h := (isRounding_round .positive (m := m.toNat) e (by omega)).gives
    rw [← signed_apply] at h
    rw [UnpackedFloat.normalize, show compare m 0 = .gt from Int.compare_eq_gt.2 hm]
    simpa [Sign.apply, Int.toNat_of_nonneg hm.le] using h

/-- The two mantissas of a sum on their common exponent. -/
theorem signed_decreaseExponent (s : Sign) (m : ℕ) {e t : ℤ} (h : t ≤ e) :
    (s.apply (decreaseExponent m e t).1 : ℤ) * (2 : ℚ) ^ t = signed s (m * 2 ^ e) := by
  have ht : (decreaseExponent m e t).2 = t := by
    simp only [decreaseExponent]
    omega
  rw [signed_apply, ← decreaseExponent_eq m e t, ht]

theorem gives_add_of_isFinite {u v : UnpackedFloat} (hu : Fits u) (hv : Fits v)
    (fu : u.isFinite) (fv : v.isFinite) : Gives (value u + value v) (add Format.binary64 u v) := by
  cases u with
  | infinity _ | notANumber => cases fu
  | zero s =>
      cases v with
      | infinity _ | notANumber => cases fv
      | zero t =>
          simp only [value, add_zero, UnpackedFloat.add]
          split <;> exact gives_zero _
      | finite t n f hn =>
          rw [show value (.zero s) = 0 from rfl, zero_add]
          exact hv.gives
  | finite s m e hm =>
      cases v with
      | infinity _ | notANumber => cases fv
      | zero t =>
          rw [show value (.zero t) = 0 from rfl, add_zero]
          exact hu.gives
      | finite t n f hn =>
          have h := gives_normalize (s.apply (decreaseExponent m e (min e f)).1 +
            t.apply (decreaseExponent n f (min e f)).1) (min e f) .positive
          push_cast at h
          rwa [add_mul, signed_decreaseExponent s m (min_le_left e f),
            signed_decreaseExponent t n (min_le_right e f)] at h

/-- An infinite number stays what it is next to any number that can be added to it. -/
theorem gives_infinity (s : Sign) {q : ℚ} (h : |q| < top ∨ q = signed s far) :
    Gives (signed s far + q) (.infinity s) := by
  have ht := top_pos
  have hf := far_eq
  refine ⟨trivial, ?_⟩
  rw [capped, value]
  · symm
    cases s with
    | positive =>
        refine bounded_of_top_le ?_
        obtain h | h := h
        · linarith [(abs_lt.1 h).1, show signed .positive far = far from rfl]
        · rw [h]
          linarith [show signed .positive far = far from rfl]
    | negative =>
        rw [show signed .negative far + q = -(far - q) by rw [signed]; ring, bounded_neg]
        refine congrArg _ (bounded_of_top_le ?_)
        obtain h | h := h
        · linarith [(abs_lt.1 h).2]
        · rw [h]
          linarith [show signed .negative far = -far from rfl]
  · intro _ _ _ _ h
    cases h

/-- The sum of two numbers is the rounded sum of what they stand for, infinite ones included. -/
theorem gives_add {u v : UnpackedFloat} (hu : Fits u) (hv : Fits v)
    (h : (add Format.binary64 u v).isNaN = false) :
    Gives (value u + value v) (add Format.binary64 u v) := by
  cases u with
  | notANumber => cases h
  | infinity s =>
      cases v with
      | notANumber => cases h
      | infinity t =>
          obtain rfl : s = t := by cases s <;> cases t <;> first | rfl | cases h
          rw [UnpackedFloat.add, if_pos (by cases s <;> rfl)]
          exact gives_infinity s (.inr rfl)
      | zero _ | finite _ _ _ _ => exact gives_infinity s (.inl (hv.abs_value_lt rfl))
  | zero _ | finite _ _ _ _ =>
      cases v with
      | notANumber => cases h
      | infinity t =>
          rw [add_comm]
          exact gives_infinity t (.inl (hu.abs_value_lt rfl))
      | zero _ | finite _ _ _ _ => exact gives_add_of_isFinite hu hv rfl rfl

theorem Fits.neg {u : UnpackedFloat} (h : Fits u) : Fits u.neg := by
  cases u with
  | finite _ _ _ _ => exact h
  | infinity _ | notANumber | zero _ => trivial

theorem value_neg (u : UnpackedFloat) : value u.neg = -value u := by
  cases u with
  | zero _ | notANumber => exact neg_zero.symm
  | infinity s | finite s _ _ _ => exact signed_neg s _

/-- A difference is a sum with the sign of the second number turned. -/
theorem sub_eq_add (f : Format) (u v : UnpackedFloat) : sub f u v = add f u v.neg := by
  have apply_neg (s : Sign) (n : ℤ) : (-s).apply n = -s.apply n := by
    cases s
    · exact (neg_neg n).symm
    · rfl
  cases u <;> cases v <;>
    simp only [UnpackedFloat.sub, UnpackedFloat.add, UnpackedFloat.neg, apply_neg,
      sub_eq_add_neg]

theorem gives_sub {u v : UnpackedFloat} (hu : Fits u) (hv : Fits v)
    (h : (sub Format.binary64 u v).isNaN = false) :
    Gives (value u - value v) (sub Format.binary64 u v) := by
  rw [sub_eq_add] at h ⊢
  rw [sub_eq_add_neg, ← value_neg]
  exact gives_add hu hv.neg h

theorem signed_mul (s t : Sign) (p q : ℚ) : signed (s * t) (p * q) = signed s p * signed t q := by
  cases s <;> cases t
  · exact (neg_mul_neg p q).symm
  · exact (neg_mul p q).symm
  · exact (mul_neg p q).symm
  · rfl

theorem signed_div (s t : Sign) (p q : ℚ) : signed (s / t) (p / q) = signed s p / signed t q := by
  cases s <;> cases t
  · exact (neg_div_neg_eq p q).symm
  · exact (neg_div q p).symm
  · exact (div_neg p).symm
  · rfl

/-- The product of two mantissas has places enough to be rounded where it stands. -/
theorem Normal.mul_le_gridExponent {m n : ℕ} {e f : ℤ} (hm : Normal m e) (hn : Normal n f)
    (pm : 0 < m) (pn : 0 < n) :
    e + f ≤ Binary.gridExponent ((m * n : ℕ) * 2 ^ (e + f)) := by
  by_contra hlt
  have hg := abs_lt_grid ((m * n : ℕ) * 2 ^ (e + f))
  have hleast := least_le_gridExponent ((m * n : ℕ) * 2 ^ (e + f))
  have hbig : 2 ^ 52 ≤ m * n := by
    obtain h | h := hm.full
    · exact h.trans (Nat.le_mul_of_pos_right m pn)
    · obtain h' | h' := hn.full
      · exact h'.trans (Nat.le_mul_of_pos_left n pm)
      · omega
  have hle : (2 : ℚ) ^ (52 : ℤ) * 2 ^ (e + f) ≤ (m * n : ℕ) * 2 ^ (e + f) :=
    mul_le_mul_of_nonneg_right (by exact_mod_cast hbig) (two_zpow_pos _).le
  rw [← two_zpow_add] at hle
  rw [abs_of_nonneg ((two_zpow_pos _).le.trans hle)] at hg
  have : (2 : ℚ) ^ (Binary.gridExponent ((m * n : ℕ) * 2 ^ (e + f)) + 53) ≤ 2 ^ (52 + (e + f)) :=
    two_zpow_le (by omega)
  linarith

theorem gives_mul {u v : UnpackedFloat} (hu : Fits u) (hv : Fits v) (fu : u.isFinite)
    (fv : v.isFinite) : Gives (value u * value v) (mul Format.binary64 u v) := by
  cases u with
  | infinity _ | notANumber => cases fu
  | zero s =>
      rw [show value (.zero s) = 0 from rfl, zero_mul]
      cases v with
      | infinity _ | notANumber => cases fv
      | zero _ | finite _ _ _ _ => exact gives_zero _
  | finite s m e hm =>
      cases v with
      | infinity _ | notANumber => cases fv
      | zero t =>
          rw [show value (.zero t) = 0 from rfl, mul_zero]
          exact gives_zero _
      | finite t n f hn =>
          have h := (isRounding_exact (s * t) (Nat.mul_pos hm hn)
            (hu.1.mul_le_gridExponent hv.1 hm hn)).gives
          rwa [two_zpow_add, Nat.cast_mul, mul_mul_mul_comm, signed_mul] at h

/-- What is left of a division says where the quotient lies. -/
theorem lies_accuracyOfFraction {n d : ℕ} (hd : 0 < d) :
    Lies (n / d) (n / d) (accuracyOfFraction (n % d) d) := by
  have pd : (0 : ℚ) < d := by exact_mod_cast hd
  have hq : (n / d : ℚ) = (n / d : ℕ) + (n % d : ℕ) / d := by
    rw [eq_comm, add_div', div_left_inj' pd.ne']
    · exact_mod_cast Nat.div_add_mod' n d
    · exact pd.ne'
  have hlt : ((n % d : ℕ) : ℚ) < d := by exact_mod_cast Nat.mod_lt n hd
  rw [accuracyOfFraction, hq]
  split
  · next hz => simp [Lies, hz]
  · next hz =>
      have hpos : (0 : ℚ) < (n % d : ℕ) := by exact_mod_cast Nat.pos_of_ne_zero hz
      have low := div_pos hpos pd
      obtain h | h | h := lt_trichotomy (2 * (n % d)) d
      · have hh : (2 : ℚ) * (n % d : ℕ) < d := by exact_mod_cast h
        have : ((n % d : ℕ) : ℚ) / d < 1 / 2 := by rw [div_lt_div_iff₀ pd two_pos]; linarith
        rw [Nat.compare_eq_lt.2 h]
        constructor <;> linarith
      · have hh : (2 : ℚ) * (n % d : ℕ) = d := by exact_mod_cast h
        have : ((n % d : ℕ) : ℚ) / d = 1 / 2 := by rw [div_eq_div_iff pd.ne' two_ne_zero]; linarith
        rw [Nat.compare_eq_eq.2 h]
        simp only [Lies]
        linarith
      · have hh : (d : ℚ) < 2 * (n % d : ℕ) := by exact_mod_cast h
        have low : 1 / 2 < ((n % d : ℕ) : ℚ) / d := by rw [div_lt_div_iff₀ two_pos pd]; linarith
        have high : ((n % d : ℕ) : ℚ) / d < 1 := by rwa [div_lt_one pd]
        rw [Nat.compare_eq_gt.2 h]
        constructor <;> linarith

/-- The grid on which the model divides is at least as fine as that of the quotient. -/
theorem targetExponent_sub_le (m n : ℕ) (e f : ℤ) (hm : 0 < m) (hn : 0 < n) :
    Format.binary64.targetExponent (totalExponent m e - totalExponent n f) ≤
      gridExponent (m * 2 ^ e / (n * 2 ^ f)) := by
  have pn : (0 : ℚ) < n * 2 ^ f := mul_pos (by exact_mod_cast hn) (two_zpow_pos f)
  have hleast := least_le_gridExponent (m * 2 ^ e / (n * 2 ^ f))
  rw [targetExponent_eq, totalExponent, totalExponent]
  by_contra hlt
  have hg := abs_lt_grid (m * 2 ^ e / (n * 2 ^ f))
  have low : (2 : ℚ) ^ (m.log2 : ℤ) * 2 ^ e ≤ m * 2 ^ e :=
    mul_le_mul_of_nonneg_right (by exact_mod_cast Nat.log2_self_le hm.ne') (two_zpow_pos e).le
  have high : (n : ℚ) * 2 ^ f ≤ 2 ^ ((n.log2 : ℤ) + 1) * 2 ^ f :=
    mul_le_mul_of_nonneg_right (by exact_mod_cast (Nat.lt_log2_self (n := n)).le)
      (two_zpow_pos f).le
  rw [← two_zpow_add] at low high
  have hle : (2 : ℚ) ^ ((m.log2 : ℤ) + e - (n.log2 + 1 + f)) ≤ m * 2 ^ e / (n * 2 ^ f) := by
    rw [le_div_iff₀ pn]
    calc (2 : ℚ) ^ ((m.log2 : ℤ) + e - (n.log2 + 1 + f)) * (n * 2 ^ f)
        ≤ 2 ^ ((m.log2 : ℤ) + e - (n.log2 + 1 + f)) * 2 ^ ((n.log2 : ℤ) + 1 + f) :=
          mul_le_mul_of_nonneg_left high (two_zpow_pos _).le
      _ = 2 ^ ((m.log2 : ℤ) + e) := by rw [← two_zpow_add, sub_add_cancel]
      _ ≤ m * 2 ^ e := low
  rw [abs_of_nonneg ((two_zpow_pos _).le.trans hle)] at hg
  have : (2 : ℚ) ^ (gridExponent (m * 2 ^ e / (n * 2 ^ f)) + 53) ≤
      2 ^ ((m.log2 : ℤ) + e - (n.log2 + 1 + f)) := two_zpow_le (by omega)
  linarith

theorem isRounding_div (s : Sign) {m n : ℕ} (e f : ℤ) (hm : 0 < m) (hn : 0 < n) :
    IsRounding s (m * 2 ^ e / (n * 2 ^ f))
      (roundWithAccuracy Format.binary64 s (divCore Format.binary64 m e n f).1
        (divCore Format.binary64 m e n f).2.1 (divCore Format.binary64 m e n f).2.2) := by
  have pm : (0 : ℚ) < m * 2 ^ e := mul_pos (by exact_mod_cast hm) (two_zpow_pos e)
  have pn : (0 : ℚ) < n * 2 ^ f := mul_pos (by exact_mod_cast hn) (two_zpow_pos f)
  have target := targetExponent_sub_le m n e f hm hn
  simp only [divCore]
  generalize ht : min (e - f)
    (Format.binary64.targetExponent (totalExponent m e - totalExponent n f)) = t
  refine isRounding_roundWithAccuracy s (div_pos pm pn) (by omega) ?_
  have hq : (m * 2 ^ e / (n * 2 ^ f) : ℚ) / 2 ^ t = (m <<< (e - f - t).toNat : ℕ) / n := by
    have : (2 : ℚ) ^ e = 2 ^ (e - f - t) * 2 ^ f * 2 ^ t := by
      rw [← two_zpow_add, ← two_zpow_add]
      congr 1
      ring
    rw [Nat.shiftLeft_eq]
    push_cast
    rw [← zpow_natCast, Int.toNat_of_nonneg (by omega), this]
    have := (two_zpow_pos f).ne'
    have := (two_zpow_pos t).ne'
    have : (n : ℚ) ≠ 0 := by exact_mod_cast hn.ne'
    field_simp
  rw [hq]
  exact lies_accuracyOfFraction hn

theorem gives_div {u v : UnpackedFloat} (fu : u.isFinite) (fv : v.isFinite)
    (hv : value v ≠ 0) : Gives (value u / value v) (div Format.binary64 u v) := by
  cases v with
  | infinity _ | notANumber => cases fv
  | zero t => exact absurd rfl hv
  | finite t n f hn =>
      cases u with
      | infinity _ | notANumber => cases fu
      | zero s =>
          rw [show value (.zero s) = 0 from rfl, zero_div]
          exact gives_zero _
      | finite s m e hm =>
          have h := (isRounding_div (s / t) e f hm hn).gives
          rwa [signed_div] at h

end Binary
end CreditRating

import CreditRating.Decimal.Reading
import CreditRating.Decimal.Shortest
import CreditRating.Proofs.Binary.Number

/-!
What the shortest decimal of a number stands for. It lies among the reals that
round to the number, so it is rounded back to it.
-/

namespace CreditRating
namespace Decimal

open Binary

/-- The reals that the basin stands for. -/
def Basin.Contains (b : Basin) (q : ℚ) : Prop :=
  if b.closed then b.low * 2 ^ b.unit ≤ q ∧ q ≤ b.high * 2 ^ b.unit
  else b.low * 2 ^ b.unit < q ∧ q < b.high * 2 ^ b.unit

theorem Basin.low_around (m : ℕ) (e : ℤ) : (4 * m - 2 : ℚ) ≤ (Basin.around m e).low := by
  have h : 4 * m ≤ (Basin.around m e).low + 2 := by
    simp only [around]
    split <;> omega
  have : (4 * m : ℚ) ≤ (Basin.around m e).low + 2 := by exact_mod_cast h
  linarith

theorem Basin.low_around_edge {m : ℕ} {e : ℤ} (hm : m = 2 ^ 52) (he : -1074 < e) :
    (4 * m - 1 : ℚ) ≤ (Basin.around m e).low := by
  have h : (Basin.around m e).low = 4 * m - 1 := if_pos ⟨hm, he⟩
  have : 4 * m ≤ (Basin.around m e).low + 1 := by omega
  have : (4 * m : ℚ) ≤ (Basin.around m e).low + 1 := by exact_mod_cast this
  linarith

theorem Basin.high_around (m : ℕ) (e : ℤ) : ((Basin.around m e).high : ℚ) = 4 * m + 2 := by
  simp only [around]
  push_cast
  ring

/-- The basin in units of the last place. Only an even number has the ends. -/
theorem Basin.contains_around {m : ℕ} {e : ℤ} {q : ℚ} (h : (Basin.around m e).Contains q) :
    ((Basin.around m e).low ≤ 4 * (q / 2 ^ e) ∧ 4 * (q / 2 ^ e) ≤ 4 * m + 2) ∧
      (m % 2 = 0 ∨
        (Basin.around m e).low < 4 * (q / 2 ^ e) ∧ 4 * (q / 2 ^ e) < 4 * m + 2) := by
  have hpos := two_zpow_pos e
  have scale : q = 4 * (q / 2 ^ e) * 2 ^ (e - 2) := by
    rw [sub_eq_add_neg, two_zpow_add]
    field_simp
    norm_num
  have hunit := two_zpow_pos (e - 2)
  generalize q / 2 ^ e = x at *
  rw [← Basin.high_around m e]
  have hclosed : (Basin.around m e).closed = decide (m % 2 = 0) := rfl
  rw [Contains, hclosed, scale, show (Basin.around m e).unit = e - 2 from rfl] at h
  simp only [mul_le_mul_iff_left₀ hunit, mul_lt_mul_iff_left₀ hunit, decide_eq_true_iff] at h
  split at h
  · next even => exact ⟨h, .inl even⟩
  · exact ⟨⟨h.1.le, h.2.le⟩, .inr h⟩

section

variable {m : ℕ} {e : ℤ} {x : ℚ}

/-- Just below a power of two the grid is twice as fine, and a quarter of the last place is
rounded up. -/
theorem rounded_below_power (power : m = 2 ^ 52) (least : -1074 < e) (low : 4 * m - 1 ≤ 4 * x)
    (below : x < m) : rounded (x * 2 ^ e) = m * 2 ^ e := by
  have hpos := two_zpow_pos e
  have m52 : (m : ℚ) = 2 ^ (52 : ℤ) := by exact_mod_cast power
  have habs : |x * 2 ^ e| = x * 2 ^ e := by
    rw [abs_of_nonneg]
    refine mul_nonneg ?_ hpos.le
    norm_num at m52
    linarith
  have half : (2 : ℚ) ^ e = 2 * 2 ^ (e - 1) := by
    rw [← zpow_one_add₀ two_ne_zero, add_sub_cancel]
  have grid : gridExponent (x * 2 ^ e) = e - 1 := by
    refine gridExponent_eq (by omega) ?_ (.inl ?_)
    · rw [habs, show e - 1 + 53 = 52 + e by ring, two_zpow_add, ← m52]
      exact mul_lt_mul_of_pos_right below hpos
    · rw [habs, show e - 1 + 52 = 51 + e by ring, two_zpow_add]
      refine mul_le_mul_of_nonneg_right ?_ hpos.le
      norm_num at m52 ⊢
      linarith
  have near : nearest (2 * x) = 2 * m := by
    refine nearest_eq ?_ (.inl (by omega))
    push_cast
    rw [abs_le]
    constructor <;> linarith
  have scaled : x * 2 ^ e / 2 ^ (e - 1) = 2 * x := by
    rw [half, div_eq_iff (two_zpow_pos _).ne']
    ring
  rw [rounded_of_gridExponent grid, scaled, near, half]
  push_cast
  ring

/-- In the grid of a number, half of the last place is rounded to it if it is even. -/
theorem rounded_in_grid (normal : Normal m e) (hm : 0 < m)
    (own : (2 : ℚ) ^ (52 : ℤ) ≤ x ∨ e = -1074) (near : |x - m| ≤ 1 / 2)
    (inner : m % 2 = 0 ∨ |x - m| < 1 / 2) : rounded (x * 2 ^ e) = m * 2 ^ e := by
  have hpos := two_zpow_pos e
  obtain ⟨low, high⟩ := abs_le.1 near
  have hm1 : (1 : ℚ) ≤ m := by exact_mod_cast hm
  have hm53 : (m : ℚ) + 1 ≤ 2 ^ (53 : ℤ) := by exact_mod_cast normal.lt
  have habs : |x * 2 ^ e| = x * 2 ^ e := abs_of_nonneg (mul_nonneg (by linarith) hpos.le)
  have grid : gridExponent (x * 2 ^ e) = e := by
    refine gridExponent_eq normal.least ?_ (own.imp_left fun full => ?_)
    · rw [habs, add_comm, two_zpow_add]
      exact mul_lt_mul_of_pos_right (by linarith) hpos
    · rw [habs, add_comm, two_zpow_add]
      exact mul_le_mul_of_nonneg_right full hpos.le
  have nearest : Binary.nearest x = m :=
    nearest_eq (by exact_mod_cast near) (inner.imp (by omega) fun h => by exact_mod_cast h)
  rw [rounded_of_gridExponent grid, mul_div_cancel_right₀ x hpos.ne', nearest, Int.cast_natCast]

end

/-- What lies in the basin of a number is rounded to it. Below a power of two the grid is
finer, and so is the basin. -/
theorem rounded_of_contains {m : ℕ} {e : ℤ} {q : ℚ} (normal : Normal m e)
    (h : (Basin.around m e).Contains q) (hm : 0 < m) : rounded q = m * 2 ^ e := by
  obtain ⟨⟨low, high⟩, inner⟩ := Basin.contains_around h
  have floor := Basin.low_around m e
  have hq : q = q / 2 ^ e * 2 ^ e := (div_mul_cancel₀ q (two_zpow_pos e).ne').symm
  generalize q / 2 ^ e = x at *
  rw [hq]
  by_cases edge : (m = 2 ^ 52 ∧ -1074 < e) ∧ x < m
  · obtain ⟨⟨power, least⟩, below⟩ := edge
    exact rounded_below_power power least ((Basin.low_around_edge power least).trans low) below
  · have own : (2 : ℚ) ^ (52 : ℤ) ≤ x ∨ e = -1074 := by
      refine or_iff_not_imp_right.2 fun least => ?_
      obtain full | full := (normal.full.resolve_right least).eq_or_lt
      · have above : (m : ℚ) ≤ x := by
          have := normal.least
          exact not_lt.1 fun below => edge ⟨⟨full.symm, by omega⟩, below⟩
        have : (2 : ℚ) ^ (52 : ℤ) = m := by exact_mod_cast full
        linarith
      · have : (2 : ℚ) ^ (52 : ℤ) + 1 ≤ m := by exact_mod_cast full
        linarith
    refine rounded_in_grid normal hm own ?_ (inner.imp_right fun h => ?_)
    · rw [abs_le]
      constructor <;> linarith
    · rw [abs_lt]
      constructor <;> linarith

def Scaled.value (s : Scaled) : ℚ := s.coefficient * 10 ^ s.power

theorem pow_toNat {a : ℚ} (ha : a ≠ 0) (z : ℤ) : a ^ z.toNat = a ^ z * a ^ (-z).toNat := by
  rw [← zpow_natCast, ← zpow_natCast, ← zpow_add₀ ha]
  congr 1
  omega

namespace Basin

/-- The measure in which a unit of the basin and a step of the grid are naturals. -/
theorem measures_scale (b : Basin) (p : ℤ) :
    ∃ k : ℚ, 0 < k ∧ ((b.measures p).1 : ℚ) = 2 ^ b.unit * k ∧
      ((b.measures p).2 : ℚ) = 10 ^ p * k := by
  have ten : (0 : ℚ) < 10 := by norm_num
  refine ⟨2 ^ (-b.unit).toNat * 10 ^ (-p).toNat, by positivity, ?_, ?_⟩
  · simp only [measures, Nat.pow_eq]
    push_cast
    rw [pow_toNat two_ne_zero b.unit, mul_assoc]
  · simp only [measures, Nat.pow_eq]
    push_cast
    rw [pow_toNat ten.ne' p]
    ring

theorem contains_of_holds {b : Basin} {p : ℤ} {c : ℕ} (h : b.holds p c) :
    b.Contains (c * 10 ^ p) := by
  obtain ⟨k, hk, hu, hg⟩ := b.measures_scale p
  have le_iff (x y : ℚ) : x ≤ y ↔ x * k ≤ y * k := (mul_le_mul_iff_left₀ hk).symm
  have lt_iff (x y : ℚ) : x < y ↔ x * k < y * k := (mul_lt_mul_iff_left₀ hk).symm
  simp only [holds] at h
  rw [Contains]
  split at h
  · next closed =>
      rw [Bool.and_eq_true, decide_eq_true_iff, decide_eq_true_iff] at h
      rw [if_pos closed, le_iff, le_iff (c * 10 ^ p)]
      simp only [mul_assoc, ← hu, ← hg]
      exact_mod_cast h
  · next closed =>
      rw [Bool.and_eq_true, decide_eq_true_iff, decide_eq_true_iff] at h
      rw [if_neg closed, lt_iff, lt_iff (c * 10 ^ p)]
      simp only [mul_assoc, ← hu, ← hg]
      exact_mod_cast h

theorem onGrid?_spec {b : Basin} {tie : Tie} {p : ℤ} {s : Scaled} (h : b.onGrid? tie p = some s) :
    s.power = p ∧ b.Contains s.value := by
  rw [onGrid?, Option.map_eq_some_iff] at h
  obtain ⟨c, hc, rfl⟩ := h
  exact ⟨rfl, contains_of_holds (List.find?_some hc)⟩

theorem value_exact (b : Basin) : b.exact.value = b.mid * 2 ^ b.unit := by
  have five : (5 : ℚ) ^ (-b.unit).toNat * 2 ^ (-b.unit).toNat = 10 ^ (-b.unit).toNat := by
    rw [← mul_pow]
    norm_num
  have ten : (10 : ℚ) ^ (-b.unit).toNat * 10 ^ min b.unit 0 = 1 := by
    rw [← zpow_natCast, ← zpow_add₀ (by norm_num), ← zpow_zero (10 : ℚ)]
    congr 1
    omega
  rw [Scaled.value, exact]
  simp only [Nat.pow_eq]
  push_cast
  rw [pow_toNat two_ne_zero b.unit]
  calc (b.mid * (2 ^ b.unit * 2 ^ (-b.unit).toNat) * 5 ^ (-b.unit).toNat * 10 ^ min b.unit 0 : ℚ)
      = b.mid * 2 ^ b.unit *
          ((5 ^ (-b.unit).toNat * 2 ^ (-b.unit).toNat) * 10 ^ min b.unit 0) := by ring
    _ = b.mid * 2 ^ b.unit := by rw [five, ten, mul_one]

theorem contains_mid {m : ℕ} (hm : 0 < m) (e : ℤ) :
    (around m e).Contains ((around m e).mid * 2 ^ (around m e).unit) := by
  have hunit := two_zpow_pos (around m e).unit
  have low : ((around m e).low : ℚ) < (around m e).mid := by
    have : (around m e).low < 4 * m := by
      simp only [around]
      split <;> omega
    exact_mod_cast this
  have high : ((around m e).mid : ℚ) < (around m e).high := by
    have : 4 * m < 4 * m + 2 := by omega
    exact_mod_cast this
  have hl := mul_lt_mul_of_pos_right low hunit
  have hh := mul_lt_mul_of_pos_right high hunit
  rw [Contains]
  split
  · exact ⟨hl.le, hh.le⟩
  · exact ⟨hl, hh⟩

/-- The shortest decimal is on a grid that is tried, or it is the number itself. -/
theorem shortest_spec {m : ℕ} (hm : 0 < m) {e : ℤ} (least : -1074 ≤ e) (tie : Tie) :
    (around m e).Contains ((around m e).shortest tie).value ∧
      -1076 ≤ ((around m e).shortest tie).power := by
  rw [shortest]
  cases h : (List.range gridCount).findSome? fun i : ℕ =>
      (around m e).onGrid? tie ((around m e).topPower - i) with
  | none =>
      rw [Option.getD_none, value_exact]
      refine ⟨contains_mid hm e, ?_⟩
      have : (around m e).unit = e - 2 := rfl
      simp only [exact]
      omega
  | some s =>
      obtain ⟨i, hi, hs⟩ := List.exists_of_findSome?_eq_some h
      obtain ⟨power, contains⟩ := onGrid?_spec hs
      refine ⟨contains, ?_⟩
      have : (around m e).unit = e - 2 := rfl
      have := List.mem_range.1 hi
      rw [Option.getD_some, power, topPower]
      simp only [gridCount] at this
      omega

end Basin

end Decimal
end CreditRating

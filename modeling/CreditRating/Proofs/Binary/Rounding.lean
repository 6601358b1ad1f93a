import Mathlib.Data.Int.Log
import Mathlib.Data.Rat.Floor
import Mathlib.Tactic.FieldSimp
import Mathlib.Tactic.Linarith
import Mathlib.Tactic.Ring

/-!
Rounding of rational numbers to 53 binary places, half to even. The grid gets
finer towards zero until its step is 2^-1074; there is no largest number here,
so overflow is a matter of the numbers that are kept and not of the rounding.
-/

namespace CreditRating
namespace Binary

/-- The integer nearest to a number; a half goes to the even neighbour. -/
def nearest (q : ℚ) : ℤ :=
  if Int.fract q < 1 / 2 then ⌊q⌋
  else if Int.fract q = 1 / 2 then ⌊q⌋ + ⌊q⌋ % 2
  else ⌊q⌋ + 1

theorem nearest_of_abs_sub_lt {q : ℚ} {n : ℤ} (h : |q - n| < 1 / 2) : nearest q = n := by
  obtain ⟨hlo, hhi⟩ := abs_lt.1 h
  have hf := Int.self_sub_floor q
  have hb := Int.fract_lt_one q
  have hz := Int.fract_nonneg q
  have hle : ⌊q⌋ ≤ n := by
    by_contra hn
    have : ((n + 1 : ℤ) : ℚ) ≤ ⌊q⌋ := by exact_mod_cast Int.not_le.1 hn
    push_cast at this
    linarith
  have hge : n ≤ ⌊q⌋ + 1 := by
    by_contra hn
    have : ((⌊q⌋ + 2 : ℤ) : ℚ) ≤ n := by exact_mod_cast by omega
    push_cast at this
    linarith
  obtain hn | hn : n = ⌊q⌋ ∨ n = ⌊q⌋ + 1 := by omega
  · rw [hn] at hhi
    rw [nearest, if_pos (by linarith), hn]
  · rw [hn] at hlo
    push_cast at hlo
    rw [nearest, if_neg (by linarith), if_neg (by linarith), hn]

theorem nearest_of_abs_sub_eq {q : ℚ} {n : ℤ} (h : |q - n| = 1 / 2) (even : n % 2 = 0) :
    nearest q = n := by
  have half : Int.fract q = 1 / 2 ∧ (n = ⌊q⌋ ∨ n = ⌊q⌋ + 1) := by
    obtain h | h := (abs_eq (by norm_num)).1 h
    · have hq : q = n + 1 / 2 := by linarith
      have hf : ⌊q⌋ = n := Int.floor_eq_iff.2 ⟨by linarith, by linarith⟩
      exact ⟨by rw [Int.fract, hf]; linarith, .inl hf.symm⟩
    · have hq : q = n - 1 / 2 := by linarith
      have hf : ⌊q⌋ = n - 1 := Int.floor_eq_iff.2 ⟨by push_cast; linarith, by push_cast; linarith⟩
      exact ⟨by rw [Int.fract, hf]; push_cast; linarith, .inr (by omega)⟩
  rw [nearest, if_neg (by linarith [half.1]), if_pos half.1]
  omega

/-- An integer at most a half away is the nearest one, if the tie goes to it. -/
theorem nearest_eq {q : ℚ} {n : ℤ} (h : |q - n| ≤ 1 / 2) (inner : n % 2 = 0 ∨ |q - n| < 1 / 2) :
    nearest q = n := by
  obtain h | h := h.lt_or_eq
  · exact nearest_of_abs_sub_lt h
  · exact nearest_of_abs_sub_eq h (inner.resolve_right h.not_lt)

/-- Rounding to an integer moves a number by a half at most. -/
theorem abs_sub_nearest_le (q : ℚ) : |q - nearest q| ≤ 1 / 2 := by
  have hf := Int.self_sub_floor q
  have hb := Int.fract_lt_one q
  have hz := Int.fract_nonneg q
  rw [nearest, abs_le]
  split_ifs with hlt heq
  · constructor <;> linarith
  · obtain hp | hp : ⌊q⌋ % 2 = 0 ∨ ⌊q⌋ % 2 = 1 := by omega
    all_goals rw [hp]; push_cast; constructor <;> linarith
  · push_cast
    have := lt_of_le_of_ne (not_lt.1 hlt) (Ne.symm heq)
    constructor <;> linarith

/-- Of two integers that are equally near the even one is taken. -/
theorem nearest_even_of_tie {q : ℚ} (h : |q - nearest q| = 1 / 2) : nearest q % 2 = 0 := by
  have hf := Int.self_sub_floor q
  have hb := Int.fract_lt_one q
  have hz := Int.fract_nonneg q
  rw [nearest] at h ⊢
  split_ifs at h ⊢ with hlt heq
  · rw [abs_of_nonneg (by linarith)] at h
    linarith
  · omega
  · push_cast at h
    rw [abs_of_nonpos (by linarith)] at h
    exact absurd (by linarith) heq

@[simp] theorem nearest_intCast (n : ℤ) : nearest n = n :=
  nearest_of_abs_sub_lt (by simp)

theorem nearest_neg (q : ℚ) : nearest (-q) = -nearest q := by
  have flip : |-q - ((-nearest q : ℤ) : ℚ)| = |q - nearest q| := by
    rw [← abs_neg]
    push_cast
    ring_nf
  obtain h | h := (abs_sub_nearest_le q).lt_or_eq
  · exact nearest_of_abs_sub_lt (by rwa [flip])
  · exact nearest_of_abs_sub_eq (by rwa [flip]) (by have := nearest_even_of_tie h; omega)

theorem nearest_mono {p q : ℚ} (h : p ≤ q) : nearest p ≤ nearest q := by
  by_contra hn
  have hgap : ((nearest q + 1 : ℤ) : ℚ) ≤ nearest p := by exact_mod_cast Int.not_le.1 hn
  push_cast at hgap
  have hp := (abs_le.1 (abs_sub_nearest_le p)).1
  have hq := (abs_le.1 (abs_sub_nearest_le q)).2
  -- Both lie half-way between two adjacent integers, which cannot both be even.
  have ep : |p - nearest p| = 1 / 2 := by rw [abs_of_nonpos (by linarith)]; linarith
  have eq : |q - nearest q| = 1 / 2 := by rw [abs_of_nonneg (by linarith)]; linarith
  have hadj : nearest p = nearest q + 1 := by
    have : (nearest p : ℚ) = ((nearest q + 1 : ℤ) : ℚ) := by push_cast; linarith
    exact_mod_cast this
  have := nearest_even_of_tie ep
  have := nearest_even_of_tie eq
  omega

theorem le_nearest {n : ℤ} {q : ℚ} (h : (n : ℚ) ≤ q) : n ≤ nearest q := by
  simpa using nearest_mono h

theorem nearest_le {n : ℤ} {q : ℚ} (h : q ≤ n) : nearest q ≤ n := by
  simpa using nearest_mono h

theorem two_zpow_pos (e : ℤ) : (0 : ℚ) < 2 ^ e := zpow_pos (by norm_num) e

theorem two_zpow_add (a b : ℤ) : (2 : ℚ) ^ (a + b) = 2 ^ a * 2 ^ b :=
  zpow_add₀ (by norm_num) a b

theorem two_zpow_le {a b : ℤ} (h : a ≤ b) : (2 : ℚ) ^ a ≤ 2 ^ b :=
  zpow_le_zpow_right₀ (by norm_num) h

/-- The step of the grid around a number is two to this power. -/
def gridExponent (q : ℚ) : ℤ :=
  if q = 0 then -1074 else max (Int.log 2 |q| - 52) (-1074)

theorem least_le_gridExponent (q : ℚ) : -1074 ≤ gridExponent q := by
  rw [gridExponent]
  split <;> omega

@[simp] theorem gridExponent_neg (q : ℚ) : gridExponent (-q) = gridExponent q := by
  simp only [gridExponent, abs_neg, neg_eq_zero]

theorem abs_lt_grid (q : ℚ) : |q| < 2 ^ (gridExponent q + 53) := by
  by_cases hq : q = 0
  · rw [hq, abs_zero]
    exact two_zpow_pos _
  · have h := Int.lt_zpow_succ_log_self (b := 2) (by norm_num) |q|
    refine lt_of_lt_of_le (by exact_mod_cast h) (two_zpow_le ?_)
    rw [gridExponent, if_neg hq]
    omega

theorem grid_le_abs {q : ℚ} (h : -1074 < gridExponent q) : 2 ^ (gridExponent q + 52) ≤ |q| := by
  have hq : q ≠ 0 := by
    rintro rfl
    simp [gridExponent] at h
  have hlog : gridExponent q = Int.log 2 |q| - 52 := by
    rw [gridExponent, if_neg hq] at h ⊢
    omega
  have := Int.zpow_log_le_self (b := 2) (by norm_num) (abs_pos.2 hq)
  rw [hlog, show Int.log 2 |q| - 52 + 52 = Int.log 2 |q| by ring]
  exact_mod_cast this

theorem gridExponent_le {q : ℚ} {e : ℤ} (least : -1074 ≤ e) (upper : |q| < 2 ^ (e + 53)) :
    gridExponent q ≤ e := by
  by_contra hn
  have h1 := grid_le_abs (q := q) (by omega)
  have h2 : (2 : ℚ) ^ (e + 53) ≤ 2 ^ (gridExponent q + 52) := two_zpow_le (by omega)
  linarith

/-- The exponent is fixed by the binade of the number, or by the least step. -/
theorem gridExponent_eq {q : ℚ} {e : ℤ} (least : -1074 ≤ e) (upper : |q| < 2 ^ (e + 53))
    (lower : 2 ^ (e + 52) ≤ |q| ∨ e = -1074) : gridExponent q = e := by
  refine le_antisymm (gridExponent_le least upper) ?_
  obtain lower | rfl := lower
  · by_contra hn
    have h1 := abs_lt_grid q
    have h2 : (2 : ℚ) ^ (gridExponent q + 53) ≤ 2 ^ (e + 52) := two_zpow_le (by omega)
    linarith
  · exact least_le_gridExponent q

theorem gridExponent_mono {p q : ℚ} (h : |p| ≤ |q|) : gridExponent p ≤ gridExponent q :=
  gridExponent_le (least_le_gridExponent q) (h.trans_lt (abs_lt_grid q))

/-- The nearest number of the grid; a half goes to the even multiple of the step. -/
def rounded (q : ℚ) : ℚ := nearest (q / 2 ^ gridExponent q) * 2 ^ gridExponent q

theorem rounded_of_gridExponent {q : ℚ} {e : ℤ} (h : gridExponent q = e) :
    rounded q = nearest (q / 2 ^ e) * 2 ^ e := by
  rw [rounded, h]

theorem rounded_neg (q : ℚ) : rounded (-q) = -rounded q := by
  rw [rounded, rounded, gridExponent_neg, neg_div, nearest_neg]
  push_cast
  ring

/-- Rounding moves a number by half a step of its grid at most. -/
theorem abs_sub_rounded_le (q : ℚ) : |q - rounded q| ≤ 2 ^ gridExponent q / 2 := by
  have hpos := two_zpow_pos (gridExponent q)
  have h := mul_le_mul_of_nonneg_right (abs_sub_nearest_le (q / 2 ^ gridExponent q)) hpos.le
  calc |q - rounded q|
      = |q / 2 ^ gridExponent q - nearest (q / 2 ^ gridExponent q)| * 2 ^ gridExponent q := by
        rw [← abs_of_pos hpos, ← abs_mul, abs_of_pos hpos, sub_mul, rounded,
          div_mul_cancel₀ _ hpos.ne']
    _ ≤ 2 ^ gridExponent q / 2 := by linarith

/-- The numbers of the grid are kept. -/
theorem rounded_of_multiple {k e : ℤ} (h : gridExponent (k * 2 ^ e) ≤ e) :
    rounded (k * 2 ^ e) = k * 2 ^ e := by
  have whole : (k * 2 ^ e : ℚ) / 2 ^ gridExponent (k * 2 ^ e) =
      ((k * 2 ^ (e - gridExponent (k * 2 ^ e)).toNat : ℤ) : ℚ) := by
    rw [div_eq_iff (two_zpow_pos _).ne']
    push_cast
    rw [← zpow_natCast, Int.toNat_of_nonneg (by omega), mul_assoc, ← two_zpow_add,
      sub_add_cancel]
  rw [rounded, whole, nearest_intCast, ← whole, div_mul_cancel₀ _ (two_zpow_pos _).ne']

private theorem rounded_eq_self_of_lt {m e : ℤ} (hm : |m| < 2 ^ 53) (he : -1074 ≤ e) :
    rounded (m * 2 ^ e) = m * 2 ^ e := by
  refine rounded_of_multiple (gridExponent_le he ?_)
  rw [abs_mul, abs_of_pos (two_zpow_pos e), add_comm, two_zpow_add]
  exact mul_lt_mul_of_pos_right (by exact_mod_cast hm) (two_zpow_pos e)

/-- The multiples `m * 2 ^ e` that need at most 53 places are kept. -/
theorem rounded_eq_self {m e : ℤ} (hm : |m| ≤ 2 ^ 53) (he : -1074 ≤ e) :
    rounded (m * 2 ^ e) = m * 2 ^ e := by
  obtain hm | hm := hm.lt_or_eq
  · exact rounded_eq_self_of_lt hm he
  · obtain ⟨k, rfl, hk⟩ : ∃ k, m = 2 * k ∧ |k| < 2 ^ 53 := by
      refine ⟨m / 2, ?_, ?_⟩ <;> obtain h | h := (abs_eq (by norm_num)).1 hm <;> rw [h] <;>
        norm_num
    have := rounded_eq_self_of_lt hk (show -1074 ≤ e + 1 by omega)
    rw [two_zpow_add, zpow_one] at this
    push_cast
    rwa [mul_comm (2 : ℚ) k, mul_assoc, mul_comm 2 ((2 : ℚ) ^ e)]

@[simp] theorem rounded_zero : rounded 0 = 0 := by
  simpa using rounded_eq_self (m := 0) (e := 0) (by norm_num) (by norm_num)

theorem rounded_nonneg {q : ℚ} (h : 0 ≤ q) : 0 ≤ rounded q := by
  have : (0 : ℤ) ≤ nearest (q / 2 ^ gridExponent q) :=
    le_nearest (by exact_mod_cast div_nonneg h (two_zpow_pos _).le)
  exact mul_nonneg (by exact_mod_cast this) (two_zpow_pos _).le

theorem rounded_le_top {q : ℚ} (h : 0 ≤ q) : rounded q ≤ 2 ^ (gridExponent q + 53) := by
  have hpos := two_zpow_pos (gridExponent q)
  have hlt : q / 2 ^ gridExponent q ≤ ((2 ^ 53 : ℤ) : ℚ) := by
    rw [div_le_iff₀ hpos]
    have := (abs_lt_grid q).le
    rw [abs_of_nonneg h, two_zpow_add, mul_comm] at this
    exact_mod_cast this
  rw [rounded, two_zpow_add, mul_comm ((2 : ℚ) ^ gridExponent q)]
  exact mul_le_mul_of_nonneg_right (by exact_mod_cast nearest_le hlt) hpos.le

theorem bottom_le_rounded {q : ℚ} (h : 0 ≤ q) (least : -1074 < gridExponent q) :
    2 ^ (gridExponent q + 52) ≤ rounded q := by
  have hpos := two_zpow_pos (gridExponent q)
  have hge : ((2 ^ 52 : ℤ) : ℚ) ≤ q / 2 ^ gridExponent q := by
    rw [le_div_iff₀ hpos]
    have := grid_le_abs least
    rw [abs_of_nonneg h, two_zpow_add, mul_comm] at this
    exact_mod_cast this
  rw [rounded, two_zpow_add, mul_comm ((2 : ℚ) ^ gridExponent q)]
  exact mul_le_mul_of_nonneg_right (by exact_mod_cast le_nearest hge) hpos.le

private theorem rounded_mono_of_nonneg {p q : ℚ} (hp : 0 ≤ p) (h : p ≤ q) :
    rounded p ≤ rounded q := by
  have hq := hp.trans h
  have hg := gridExponent_mono (p := p) (q := q) (by rwa [abs_of_nonneg hp, abs_of_nonneg hq])
  obtain hlt | heq := hg.lt_or_eq
  · -- A power of two, which both grids have, lies between the two binades.
    calc rounded p
        ≤ 2 ^ (gridExponent p + 53) := rounded_le_top hp
      _ ≤ 2 ^ (gridExponent q + 52) := two_zpow_le (by omega)
      _ ≤ rounded q := bottom_le_rounded hq (by have := least_le_gridExponent p; omega)
  · have hpos := two_zpow_pos (gridExponent q)
    rw [rounded, rounded, heq]
    refine mul_le_mul_of_nonneg_right ?_ hpos.le
    exact_mod_cast nearest_mono (by gcongr)

/-- Rounding keeps the order, across the places where the grid changes. -/
theorem rounded_mono {p q : ℚ} (h : p ≤ q) : rounded p ≤ rounded q := by
  obtain hp | hp := le_total 0 p
  · exact rounded_mono_of_nonneg hp h
  · obtain hq | hq := le_total 0 q
    · have := rounded_nonneg (q := -p) (by linarith)
      rw [rounded_neg] at this
      exact le_trans (by linarith) (rounded_nonneg hq)
    · have := rounded_mono_of_nonneg (p := -q) (q := -p) (by linarith) (by linarith)
      rw [rounded_neg, rounded_neg] at this
      linarith

end Binary
end CreditRating

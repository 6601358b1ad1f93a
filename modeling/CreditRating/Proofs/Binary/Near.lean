import CreditRating.Proofs.Binary.Number

/-!
Numbers near a quantity. As long as everything stays in the unit range, an
operation adds at most half a step of the grid below 2 to the distances that its
arguments have. Distances are counted in such halves.
-/

namespace CreditRating
namespace Binary

open Float.Model (UnpackedFloat Format)
open Float.Model.UnpackedFloat

/-- Half a step of the grid below 2. -/
def slip : ℚ := 1 / 2 ^ 53

theorem slip_pos : 0 < slip := by norm_num [slip]

/-- A finite number at most so many slips from a quantity. -/
structure Near (x : Float) (q : ℚ) (k : ℕ) : Prop where
  isFinite : x.isFinite
  dist : |quantity x - q| ≤ k * slip

theorem Near.isNaN {x : Float} {q : ℚ} {k : ℕ} (h : Near x q k) : x.isNaN = false :=
  isNaN_of_isFinite h.isFinite

theorem Near.mono {x : Float} {q : ℚ} {j k : ℕ} (h : Near x q j) (hjk : j ≤ k) : Near x q k :=
  ⟨h.isFinite, h.dist.trans (mul_le_mul_of_nonneg_right (by exact_mod_cast hjk) slip_pos.le)⟩

/-- Below 2 a result is finite and at most a slip away. -/
theorem near_bounded {x : Float} {p : ℚ} (hx : x.isNaN = false) (h : quantity x = bounded p)
    (hp : |p| < 2) : Near x p 1 := by
  obtain ⟨low, high⟩ := abs_lt.1 hp
  have ht := lt_top_of_le (show (2 : ℚ) ≤ 2 ^ 53 by norm_num)
  have htwo : rounded 2 = 2 := by exact_mod_cast rounded_intCast (m := 2) (by norm_num)
  have hr : |rounded p| ≤ 2 := by
    rw [abs_le, ← htwo, ← rounded_neg]
    exact ⟨rounded_mono low.le, rounded_mono high.le⟩
  have hb : quantity x = rounded p := h.trans (bounded_of_abs_lt (hr.trans_lt ht))
  refine ⟨(isFinite_iff hx).2 (hb ▸ hr.trans_lt ht), ?_⟩
  have step : (2 : ℚ) ^ gridExponent p ≤ 2 ^ (-52 : ℤ) :=
    two_zpow_le (gridExponent_le (by norm_num) (by norm_num; exact hp))
  rw [hb, abs_sub_comm]
  calc |p - rounded p| ≤ 2 ^ gridExponent p / 2 := abs_sub_rounded_le p
    _ ≤ 2 ^ (-52 : ℤ) / 2 := div_le_div_of_nonneg_right step zero_le_two
    _ = (1 : ℕ) * slip := by norm_num [slip]

theorem near_literal {m e : ℕ} {q : ℚ} (h : (m / 10 ^ e : ℚ) = q) (hm : m < 2 ^ 53) (he : e ≤ 22)
    (hq : |q| < 2) : Near (OfScientific.ofScientific m true e) q 1 := by
  obtain ⟨hn, literal⟩ := quantity_literal hm he
  rw [h] at literal
  exact near_bounded hn literal hq

/-- One operation adds one slip to the error that its operands bring along. -/
theorem Near.step {x : Float} {p q : ℚ} {k : ℕ} (h : Near x p 1) (hpq : |p - q| ≤ k * slip) :
    Near x q (k + 1) := by
  refine ⟨h.isFinite, ?_⟩
  have := abs_add_le (quantity x - p) (p - q)
  have hd := h.dist
  rw [sub_add_sub_cancel] at this
  push_cast at hd ⊢
  linarith

/-- No distance that is counted here reaches one half. -/
theorem slips_lt {k : ℕ} (h : k ≤ 2 ^ 50) : k * slip < 1 / 2 := by
  have hk : (k : ℚ) ≤ 2 ^ 50 := by exact_mod_cast h
  rw [slip]
  linarith

theorem abs_lt_two {p q : ℚ} {k : ℕ} (h : |p - q| ≤ k * slip) (hq : |q| ≤ 1) (hk : k ≤ 2 ^ 50) :
    |p| < 2 := by
  have := abs_sub_abs_le_abs_sub p q
  have := slips_lt hk
  linarith

theorem Near.add {x y : Float} {p q : ℚ} {j k : ℕ} (hx : Near x p j) (hy : Near y q k)
    (h : |p + q| ≤ 1) (hk : j + k ≤ 2 ^ 50) : Near (x + y) (p + q) (j + k + 1) := by
  have hd : |quantity x + quantity y - (p + q)| ≤ (j + k : ℕ) * slip := by
    rw [add_sub_add_comm]
    push_cast
    linarith [abs_add_le (quantity x - p) (quantity y - q), hx.dist, hy.dist]
  have hn := isNaN_add_of_isFinite hx.isNaN hy.isFinite
  exact (near_bounded hn (quantity_add hn) (abs_lt_two hd h hk)).step hd

theorem Near.sub {x y : Float} {p q : ℚ} {j k : ℕ} (hx : Near x p j) (hy : Near y q k)
    (h : |p - q| ≤ 1) (hk : j + k ≤ 2 ^ 50) : Near (x - y) (p - q) (j + k + 1) := by
  have hd : |quantity x - quantity y - (p - q)| ≤ (j + k : ℕ) * slip := by
    rw [sub_sub_sub_comm]
    push_cast
    linarith [abs_sub (quantity x - p) (quantity y - q), hx.dist, hy.dist]
  have hn := isNaN_sub_of_isFinite hx.isNaN hy.isFinite
  exact (near_bounded hn (quantity_sub hn) (abs_lt_two hd h hk)).step hd

/-- The error of a factor counts as often as the other factor is large, which is at most once. -/
theorem Near.mul {x y : Float} {p q : ℚ} {j k : ℕ} (hx : Near x p j) (hy : Near y q k)
    (hp : |p| ≤ 1) (hq : |q| ≤ 1) (hk : 2 * j + k ≤ 2 ^ 50) :
    Near (x * y) (p * q) (2 * j + k + 1) := by
  have hy2 : |quantity y| ≤ 2 := (abs_lt_two hy.dist hq (by omega)).le
  have hd : |quantity x * quantity y - p * q| ≤ (2 * j + k : ℕ) * slip := by
    have hle := abs_add_le ((quantity x - p) * quantity y) (p * (quantity y - q))
    rw [show (quantity x - p) * quantity y + p * (quantity y - q) =
      quantity x * quantity y - p * q by ring, abs_mul, abs_mul] at hle
    have h1 := mul_le_mul hx.dist hy2 (abs_nonneg _) ((abs_nonneg _).trans hx.dist)
    have h2 := mul_le_mul hp hy.dist (abs_nonneg _) zero_le_one
    push_cast
    linarith
  have hpq : |p * q| ≤ 1 := by
    rw [abs_mul]
    exact mul_le_one₀ hp (abs_nonneg q) hq
  have hn := isNaN_mul_of_isFinite hx.isFinite hy.isFinite
  exact (near_bounded hn (quantity_mul hx.isFinite hy.isFinite) (abs_lt_two hd hpq hk)).step hd

theorem Near.of_quantity {x : Float} {q : ℚ} (hx : x.isFinite) (h : quantity x = q) :
    Near x q 0 :=
  ⟨hx, by rw [h, sub_self, abs_zero, Nat.cast_zero, zero_mul]⟩

/-- A number on the other side of a quantity that is far enough away. -/
theorem Near.le_iff {x y : Float} {p q : ℚ} {j k : ℕ} (hx : Near x p j) (hy : Near y q k)
    (far : (j + k : ℕ) * slip < |p - q|) : x ≤ y ↔ p ≤ q := by
  rw [Binary.le_iff hx.isNaN hy.isNaN]
  obtain ⟨x1, x2⟩ := abs_le.1 hx.dist
  obtain ⟨y1, y2⟩ := abs_le.1 hy.dist
  push_cast at far
  obtain h | h := lt_abs.1 far
  · exact iff_of_false (by linarith) (by linarith [mul_nonneg j.cast_nonneg slip_pos.le])
  · exact iff_of_true (by linarith) (by linarith)

end Binary
end CreditRating

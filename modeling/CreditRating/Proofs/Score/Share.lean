import CreditRating.Factor
import CreditRating.Proofs.Binary.Near

/-!
What part of its weight a factor earns, as a quantity between 0 and 1.
-/

namespace CreditRating
namespace Factor

open Binary

theorem isFinite_one : (1.0 : Float).isFinite := by decide

theorem quantity_one : quantity 1.0 = 1 := by
  have literal := (quantity_whole (m := 10) (e := 1) (n := 1) (by norm_num) (by norm_num)
    (by norm_num) (by norm_num)).2
  exact_mod_cast literal

theorem isFinite_zero : (0.0 : Float).isFinite := by decide

theorem quantity_zero : quantity 0.0 = 0 := by decide

theorem bounded_one : bounded 1 = 1 := by
  exact_mod_cast bounded_intCast (m := 1) (by norm_num)

theorem abs_bounded_le_one {q : ℚ} (h : |q| ≤ 1) : |bounded q| ≤ 1 := by
  obtain ⟨low, high⟩ := abs_le.1 h
  rw [abs_le, ← bounded_one, ← bounded_neg]
  exact ⟨bounded_mono low, bounded_mono high⟩

theorem isFinite_peakAge : peakAge.isFinite := by decide

theorem quantity_peakAge : quantity peakAge = 45 := by
  have literal := (quantity_whole (m := 450) (e := 1) (n := 45) (by norm_num) (by norm_num)
    (by norm_num) (by norm_num)).2
  exact_mod_cast literal

/-- How far an age is from 45, which the subtraction finds exactly. -/
theorem quantity_ageDistance {n : ℤ} (low : 18 ≤ n) (high : n ≤ 75) :
    (peakAge - Float.ofInt n).abs.isFinite ∧
      quantity (peakAge - Float.ofInt n).abs = |45 - (n : ℚ)| := by
  obtain ⟨k, rfl⟩ := Int.eq_ofNat_of_zero_le (by omega : 0 ≤ n)
  obtain ⟨hf, hq⟩ := quantity_ofNat (n := k) (by omega)
  have hn := isNaN_sub_of_isFinite (isNaN_of_isFinite isFinite_peakAge) hf
  have hd : quantity (peakAge - Float.ofNat k) = 45 - k := by
    rw [quantity_sub hn, quantity_peakAge, hq]
    exact_mod_cast bounded_intCast (m := 45 - k) (by rw [abs_le]; omega)
  have hlt : |(45 - k : ℚ)| < top := by
    refine lt_top_of_le ?_
    exact_mod_cast (abs_le.2 (by omega) : |(45 - k : ℤ)| ≤ 2 ^ 53)
  change (peakAge - Float.ofNat k).abs.isFinite ∧ quantity (peakAge - Float.ofNat k).abs = _
  rw [isFinite_abs, isFinite_iff hn, quantity_abs, hd]
  exact ⟨hlt, rfl⟩

theorem abs_ageDistance_le {n : ℤ} (low : 18 ≤ n) (high : n ≤ 75) : |45 - (n : ℚ)| ≤ 45 := by
  have low : (18 : ℚ) ≤ n := by exact_mod_cast low
  have high : (n : ℚ) ≤ 75 := by exact_mod_cast high
  rw [abs_le]
  constructor <;> linarith

/-- The distance from 45 is a part of 45, with one rounding. -/
theorem quantity_ageQuotient {n : ℤ} (low : 18 ≤ n) (high : n ≤ 75) :
    Near ((peakAge - Float.ofInt n).abs / peakAge) (|45 - (n : ℚ)| / 45) 1 ∧
      0 ≤ quantity ((peakAge - Float.ofInt n).abs / peakAge) ∧
        quantity ((peakAge - Float.ofInt n).abs / peakAge) ≤ 1 := by
  obtain ⟨hf, hq⟩ := quantity_ageDistance low high
  have hne : quantity peakAge ≠ 0 := by rw [quantity_peakAge]; norm_num
  have hn := isNaN_div_of_isFinite hf isFinite_peakAge hne
  have hb := quantity_div hf isFinite_peakAge hne
  rw [hq, quantity_peakAge] at hb
  have hle := abs_ageDistance_le low high
  have hpos : 0 ≤ |45 - (n : ℚ)| / 45 := by positivity
  refine ⟨near_bounded hn hb ?_, ?_, ?_⟩
  · rw [abs_of_nonneg hpos]
    linarith
  · rw [hb, ← bounded_zero]
    exact bounded_mono hpos
  · rw [hb, ← bounded_one]
    exact bounded_mono (by linarith)

def ageShare (n : ℤ) : Float := 1.0 - (peakAge - Float.ofInt n).abs / peakAge

/-- The share of an age with only little lost, and never more than the whole weight. -/
theorem ageShare_spec {n : ℤ} (low : 18 ≤ n) (high : n ≤ 75) :
    Near (ageShare n) (1 - |45 - (n : ℚ)| / 45) 2 ∧ |quantity (ageShare n)| ≤ 1 := by
  obtain ⟨near, pos, le⟩ := quantity_ageQuotient low high
  have hn := isNaN_sub_of_isFinite (isNaN_of_isFinite isFinite_one) near.isFinite
  have hle : |45 - (n : ℚ)| / 45 ≤ 1 := by
    rw [div_le_one (by norm_num)]
    exact abs_ageDistance_le low high
  have hpos : 0 ≤ |45 - (n : ℚ)| / 45 := by positivity
  refine ⟨(Near.of_quantity isFinite_one quantity_one).sub near ?_ (by norm_num), ?_⟩
  · rw [abs_le]
    constructor <;> linarith
  · rw [ageShare, quantity_sub hn, quantity_one]
    refine abs_bounded_le_one ?_
    rw [abs_le]
    constructor <;> linarith

/-- The ages that count, as integers. -/
theorem counts_iff (age : Int32) :
    18 ≤ age ∧ age ≤ 75 ↔ 18 ≤ age.toInt ∧ age.toInt ≤ 75 := by
  rw [Int32.le_iff_toInt_le, Int32.le_iff_toInt_le]
  rfl

theorem ageShare?_eq (age : Int32) :
    ageShare? age =
      if 18 ≤ age.toInt ∧ age.toInt ≤ 75 then some (ageShare age.toInt) else none := by
  rw [ageShare?]
  by_cases h : 18 ≤ age ∧ age ≤ 75
  · rw [if_pos h, if_pos ((counts_iff age).1 h), ageShare]
  · rw [if_neg h, if_neg (mt (counts_iff age).2 h)]

theorem isDeductedAge_eq (age : Int32) :
    isDeductedAge age = decide (age.toInt < 21 ∨ 75 < age.toInt) := by
  rw [isDeductedAge, ← Bool.decide_or, decide_eq_decide, Int32.lt_iff_toInt_lt,
    Int32.lt_iff_toInt_lt]
  rfl

theorem isFinite_share (t : DebtTier) : t.share.isFinite := by
  cases t <;> decide

/-- The share of a tier in halves. -/
def DebtTier.halves : DebtTier → ℤ
  | low => 2
  | moderate => 1
  | high => 0

theorem quantity_share (t : DebtTier) : quantity t.share = t.halves / 2 := by
  cases t <;> decide +kernel

theorem share_bounds (t : DebtTier) : 0 ≤ quantity t.share ∧ |quantity t.share| ≤ 1 := by
  rw [quantity_share]
  cases t <;> norm_num [DebtTier.halves]

end Factor
end CreditRating

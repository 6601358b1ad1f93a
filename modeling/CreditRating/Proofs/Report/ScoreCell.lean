import CreditRating.Proofs.Decimal.FixedPlaces
import CreditRating.Proofs.Score.Raising
import CreditRating.Report

/-!
The score as the report shows it. A score in [0, 1] has one digit, a point and two more digits.
The negative zero is in that range as well and shows its sign. The clamp lets it through, but no
total before the step of the country is the negative zero.
-/

namespace CreditRating

open Binary

/-- The clamp makes no negative zero and keeps the one that comes in. -/
theorem isNegativeZero_clampUnit (x : Float) : IsNegativeZero (clampUnit x) ↔ IsNegativeZero x := by
  have nonzero {y : Float} (h : quantity y ≠ 0) : ¬ IsNegativeZero y := by
    intro zero
    rw [quantity, zero] at h
    exact h rfl
  rw [clampUnit]
  split
  · next low =>
      rw [lt_iff (isNaN_of_lt low).1 (isNaN_of_lt low).2, Factor.quantity_zero] at low
      exact iff_of_false not_isNegativeZero_zero (nonzero low.ne)
  · split
    · next high =>
        rw [lt_iff (isNaN_of_lt high).1 (isNaN_of_lt high).2, Factor.quantity_one] at high
        have one : quantity 1.0 ≠ 0 := by simp [Factor.quantity_one]
        exact iff_of_false (nonzero one) (nonzero (one_pos.trans high).ne')
    · exact Iff.rfl

namespace Finding

theorem not_isNegativeZero_add {x : Float} (hx : ¬ IsNegativeZero x) (earned : Option Float) :
    ¬ IsNegativeZero (add x earned) := by
  cases earned with
  | none => exact hx
  | some w => exact Binary.not_isNegativeZero_add hx w

theorem IsBounded.not_isNegativeZero_apply {f : Finding} (h : f.IsBounded) {x : Float}
    (hx : ¬ IsNegativeZero x) : ¬ IsNegativeZero (f.apply x) := by
  cases f with
  | age _ _ | income _ _ | employment _ _ | industry _ _ => exact not_isNegativeZero_add hx _
  | debt _ _ _ => exact Binary.not_isNegativeZero_add hx _
  | highDebt _ _ | deductedAge _ _ => exact not_isNegativeZero_sub hx _
  | country _ _ => exact h.elim

end Finding

theorem isNegativeZero_iff_eq {x : Float} : IsNegativeZero x ↔ x = -0.0 :=
  ⟨fun h => unpacked_injective h, fun h => h ▸ rfl⟩

/-- Of the numbers that a policy allows, only the negative zero has a minus sign. -/
theorem sign_iff_of_isAllowed {m : Float} (h : isAllowed m) : sign m = .negative ↔ m = -0.0 := by
  rw [sign_eq_negative_iff (isNaN_of_isFinite (isFinite_of_isAllowed h)), isNegativeZero_iff_eq]
  exact or_iff_right (quantity_nonneg_of_isAllowed h).not_gt

/-- The multiplier of the country has the other sign than the total, and no number but zero is as
small as their product. -/
def VanishesBelowZero (e : Engine) (weights : Table) (c : Client) : Prop :=
  ∃ m, e.multiplier? c.country = some m ∧ (ownTotal e weights c < 0.0 ↔ m ≠ -0.0) ∧
    |quantity (ownTotal e weights c) * quantity m| ≤ 2 ^ (-1075 : ℤ)

section

variable {p : Policy} (accepted : p.violations = []) (c : Client)
include accepted

/-- Before the step of the country the total is never the negative zero. -/
theorem not_isNegativeZero_ownTotal : ¬ IsNegativeZero (ownTotal p.engine p.weightTable c) := by
  have bounded := isBounded_findings (e := p.engine) (p.isFinite_weight accepted) c
  exact List.foldlRecOn (motive := fun x => ¬ IsNegativeZero x) _ _ not_isNegativeZero_zero
    fun _ hx f hf => (bounded f hf).not_isNegativeZero_apply hx

theorem sign_ownTotal_iff : sign (ownTotal p.engine p.weightTable c) = .negative ↔
    ownTotal p.engine p.weightTable c < 0.0 := by
  have number := isNaN_ownTotal accepted c
  rw [sign_eq_negative_iff number, lt_iff number (isNaN_of_isFinite Factor.isFinite_zero),
    Factor.quantity_zero]
  exact or_iff_left (not_isNegativeZero_ownTotal accepted c)

/-- A score is the negative zero only through the multiplier of the country. -/
theorem isNegativeZero_score_iff (number : (score p.engine p.weightTable c).isNaN = false) :
    IsNegativeZero (score p.engine p.weightTable c) ↔
      VanishesBelowZero p.engine p.weightTable c := by
  have unclamped : score p.engine p.weightTable c =
      clampUnit (explain p.engine p.weightTable c).unclamped := rfl
  rw [unclamped, isNaN_clampUnit] at number
  rw [unclamped, isNegativeZero_clampUnit, VanishesBelowZero]
  rw [unclamped_eq] at number ⊢
  cases hm : p.engine.multiplier? c.country with
  | none =>
      refine iff_of_false (not_isNegativeZero_ownTotal accepted c) ?_
      rintro ⟨m, h, -⟩
      cases h
  | some m =>
      have allowed := p.isAllowed_multiplier accepted hm
      simp only [hm] at number
      simp only [Option.some.injEq, exists_eq_left', isNegativeZero_mul_iff
        (isNaN_ownTotal accepted c) (isFinite_of_isAllowed allowed)
        (quantity_nonneg_of_isAllowed allowed) number, sign_ownTotal_iff accepted c, ne_eq,
        sign_iff_of_isAllowed allowed]

end

namespace Decimal

theorem leftpad_toDigits {n : ℕ} (h : n < 100) :
    (Nat.toDigits 10 n).leftpad 3 '0' =
      ['0', Nat.digitChar (n / 10), Nat.digitChar (n % 10)] := by
  obtain one | two := lt_or_ge n 10
  · rw [Nat.toDigits_of_lt_base one, Nat.div_eq_of_lt one, Nat.mod_eq_of_lt one]
    rfl
  · rw [Nat.toDigits_of_base_le (by norm_num) two, Nat.toDigits_of_lt_base (by omega)]
    rfl

theorem steps_le_of_le_one {x : Float} (h : |quantity x| ≤ 1) : steps 2 x ≤ 100 := by
  have most : nearest (|quantity x| * 10 ^ 2) ≤ 100 := nearest_le (by norm_num; linarith)
  rw [← steps_eq] at most
  exact_mod_cast most

end Decimal

namespace Report

/-- The texts 0.00 to 0.99, and 1.00. -/
def IsPlainCell (s : String) : Prop :=
  s = "1.00" ∨ ∃ a b : Char, a.isDigit ∧ b.isDigit ∧ s = String.ofList ['0', '.', a, b]

theorem isPlainCell_withPoint {n : ℕ} (h : n ≤ 100) : IsPlainCell (Decimal.withPoint 2 n) := by
  obtain less | rfl := h.lt_or_eq
  · refine .inr ⟨_, _, ?_, ?_, by rw [Decimal.withPoint, Decimal.leftpad_toDigits less]; rfl⟩
    · rw [Nat.isDigit_digitChar, decide_eq_true_eq]
      omega
    · rw [Nat.isDigit_digitChar, decide_eq_true_eq]
      omega
  · exact .inl rfl

theorem writeField_of_isPlainCell {s : String} (h : IsPlainCell s) :
    Csv.writeField s.toList = s.toList := by
  obtain rfl | ⟨a, b, ha, hb, rfl⟩ := h
  · rfl
  · have digit {c : Char} (hc : c.isDigit) : Csv.needsQuotes c = false := by
      rw [Csv.needsQuotes]
      simp only [Bool.or_eq_false_iff, beq_eq_false_iff_ne]
      refine ⟨⟨⟨?_, ?_⟩, ?_⟩, ?_⟩ <;> rintro rfl <;> cases hc
    have zero : Csv.needsQuotes '0' = false := rfl
    have point : Csv.needsQuotes '.' = false := rfl
    rw [String.toList_ofList, Csv.writeField]
    simp [digit ha, digit hb, zero, point]

theorem fixed_of_mem_unit {x : Float} (low : 0.0 ≤ x) (high : x ≤ 1.0) :
    (¬ IsNegativeZero x → IsPlainCell (Decimal.fixed 2 x)) ∧
      (IsNegativeZero x → Decimal.fixed 2 x = "-0.00") := by
  have number := (isNaN_of_le low).2
  have pos := quantity_le low
  have le := quantity_le high
  rw [Factor.quantity_zero] at pos
  rw [Factor.quantity_one] at le
  have finite : x.isFinite := isFinite_of_between pos high Factor.isFinite_one
  constructor
  · intro other
    have positive : sign x = .positive := by
      cases hs : sign x with
      | positive => rfl
      | negative => exact absurd ((sign_eq_negative_iff number).1 hs) (by simp [other, pos])
    have plain := isPlainCell_withPoint
      (Decimal.steps_le_of_le_one (x := x) (by rwa [abs_of_nonneg pos]))
    rw [Decimal.fixed_of_isFinite finite, positive]
    simpa [Decimal.signText, Decimal.Parts.isNegativeSign] using plain
  · intro zero
    rw [isNegativeZero_iff_eq.1 zero]
    decide +kernel

theorem not_isPlainCell_signed : ¬ IsPlainCell "-0.00" := by
  rintro (h | ⟨a, b, -, -, h⟩)
  · exact absurd h (by decide)
  · have chars : '-' :: ['0', '.', '0', '0'] = ['0', '.', a, b] := by
      rw [← String.toList_ofList (l := ['0', '.', a, b]), ← h]
      rfl
    exact absurd (List.cons.inj chars).1 (by decide)

/-- A score in [0, 1] is printed as it stands in the record, without a sign, unless the step of
the country has brought the total to zero from below. Then it is printed with the sign. -/
theorem process_score_cell (p : Policy) (c : Client) (row : ℕ) (accepted : p.violations = [])
    (valid : c.isValid) (low : 0.0 ≤ score p.engine p.weightTable c)
    (high : score p.engine p.weightTable c ≤ 1.0) :
    ∃ r cell, Pipeline.process ⟨p.weightTable, p.engine⟩ row c = .ok r ∧
      (record r)[1]? = some cell ∧ Csv.writeField cell.toList = cell.toList ∧
      (IsPlainCell cell ↔ ¬ VanishesBelowZero p.engine p.weightTable c) ∧
      (VanishesBelowZero p.engine p.weightTable c → cell = "-0.00") := by
  obtain ⟨plain, signed⟩ := fixed_of_mem_unit low high
  rw [isNegativeZero_score_iff accepted c (isNaN_of_le low).2] at plain signed
  refine ⟨_, Decimal.fixed 2 (score p.engine p.weightTable c), if_pos valid, rfl, ?_⟩
  generalize Decimal.fixed 2 (score p.engine p.weightTable c) = cell at plain signed ⊢
  by_cases vanishes : VanishesBelowZero p.engine p.weightTable c
  · obtain rfl := signed vanishes
    exact ⟨rfl, iff_of_false not_isPlainCell_signed fun h => h vanishes, signed⟩
  · have unsigned := plain vanishes
    exact ⟨writeField_of_isPlainCell unsigned, iff_of_true unsigned vanishes, signed⟩

def dismissivePolicy : Policy where
  weights := none
  countries := some (.ofList [("FR", 0.0)])

def idleClient : Client := { deductedClient with industry := "none" }

/-- The total is below zero, and zero times it is the negative zero. -/
theorem process_score_cell_idleClient :
    dismissivePolicy.violations = [] ∧ idleClient.isValid ∧
      0.0 ≤ score dismissivePolicy.engine dismissivePolicy.weightTable idleClient ∧
      score dismissivePolicy.engine dismissivePolicy.weightTable idleClient ≤ 1.0 ∧
      ∃ r, Pipeline.process ⟨dismissivePolicy.weightTable, dismissivePolicy.engine⟩ 1
          idleClient = .ok r ∧
        (record r)[1]? = some "-0.00" ∧ ¬ IsPlainCell "-0.00" := by
  have accepted : dismissivePolicy.violations = [] := List.isEmpty_iff.1 (by decide +kernel)
  have valid : idleClient.isValid := by decide +kernel
  have low : 0.0 ≤ score dismissivePolicy.engine dismissivePolicy.weightTable idleClient := by
    decide +kernel
  have high : score dismissivePolicy.engine dismissivePolicy.weightTable idleClient ≤ 1.0 := by
    decide +kernel
  have vanishes :
      VanishesBelowZero dismissivePolicy.engine dismissivePolicy.weightTable idleClient := by
    refine ⟨0.0, by decide +kernel, iff_of_true (by decide +kernel) (by decide), ?_⟩
    rw [Factor.quantity_zero, mul_zero, abs_zero]
    exact (two_zpow_pos _).le
  obtain ⟨r, cell, scored, printed, -, plain, signed⟩ :=
    process_score_cell dismissivePolicy idleClient 1 accepted valid low high
  rw [signed vanishes] at printed plain
  exact ⟨accepted, valid, low, high, r, scored, printed, fun h => plain.1 h vanishes⟩

end Report

end CreditRating

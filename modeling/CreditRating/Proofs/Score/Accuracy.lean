import CreditRating.Proofs.Score.Profile

/-!
The rounded total of a profile is near its exact total. The bound is followed
through the additions, the deductions and the step of the country, in the order
in which the total is computed.
-/

namespace CreditRating
namespace Profile

open Binary

theorem indicator_mem (b : Bool) : 0 ≤ (indicator b : ℚ) ∧ (indicator b : ℚ) ≤ 1 := by
  cases b <;> norm_num [indicator]

theorem halves_mem (t : Factor.DebtTier) : 0 ≤ (t.halves : ℚ) ∧ (t.halves : ℚ) ≤ 2 := by
  cases t <;> norm_num [Factor.DebtTier.halves]

theorem near_add {x w : Float} {p q : ℚ} {j k : ℕ} (hx : Near x p j) (hw : Near w q k) (b : Bool)
    (h : |p + q * indicator b| ≤ 1) (hk : j + k ≤ 2 ^ 50) :
    Near (Finding.add x (onlyIf b w)) (p + q * indicator b) (j + k + 1) := by
  cases b with
  | true =>
      rw [indicator_true, Int.cast_one, mul_one] at h ⊢
      exact hx.add hw h hk
  | false =>
      rw [indicator_false, Int.cast_zero, mul_zero, add_zero]
      exact hx.mono (by omega)

theorem near_less {x w : Float} {p q : ℚ} {j k : ℕ} (hx : Near x p j) (hw : Near w q k) (b : Bool)
    (h : |p - q * indicator b| ≤ 1) (hk : j + k ≤ 2 ^ 50) :
    Near (less x b w) (p - q * indicator b) (j + k + 1) := by
  cases b with
  | true =>
      rw [indicator_true, Int.cast_one, mul_one] at h ⊢
      exact hx.sub hw h hk
  | false =>
      rw [indicator_false, Int.cast_zero, mul_zero, sub_zero]
      exact hx.mono (by omega)

theorem near_tenth : Near 0.1 (1 / 10) 1 :=
  near_literal (by norm_num) (by norm_num) (by norm_num) (by norm_num [abs_lt])

theorem near_three_tenths : Near 0.3 (3 / 10) 1 :=
  near_literal (by norm_num) (by norm_num) (by norm_num) (by norm_num [abs_lt])

theorem near_fifth : Near 0.2 (1 / 5) 1 :=
  near_literal (by norm_num) (by norm_num) (by norm_num) (by norm_num [abs_lt])

theorem near_twentieth : Near 0.05 (1 / 20) 1 :=
  near_literal (by norm_num) (by norm_num) (by norm_num) (by norm_num [abs_lt])

theorem near_zero : Near 0.0 0 0 := .of_quantity Factor.isFinite_zero Factor.quantity_zero

def ageTerm (p : Profile) : ℚ := p.age.elim 0 fun n => 1 / 10 * (1 - |45 - (n.1 : ℚ)| / 45)

theorem age_bounds (n : CountedAge) : 0 ≤ |45 - (n.1 : ℚ)| ∧ |45 - (n.1 : ℚ)| ≤ 45 :=
  ⟨abs_nonneg _, Factor.abs_ageDistance_le n.2.1 n.2.2⟩

theorem ageTerm_mem (p : Profile) : 0 ≤ p.ageTerm ∧ p.ageTerm ≤ 1 / 10 := by
  rw [ageTerm]
  cases p.age with
  | none => norm_num
  | some n =>
      obtain ⟨low, high⟩ := age_bounds n
      simp only [Option.elim]
      constructor <;> linarith

theorem near_ageTerm (p : Profile) :
    Near (Finding.add 0.0 (p.age.map fun n => 0.1 * Factor.ageShare n)) p.ageTerm 6 := by
  obtain ⟨low, high⟩ := ageTerm_mem p
  rw [ageTerm] at low high ⊢
  cases p.age with
  | none => exact near_zero.mono (by norm_num)
  | some n =>
      obtain ⟨low', high'⟩ := age_bounds n
      have near := (Factor.ageShare_spec n.2.1 n.2.2).1
      simp only [Option.elim] at low high ⊢
      have product := near_tenth.mul near (by norm_num) (abs_le.2 ⟨by linarith, by linarith⟩)
        (by norm_num)
      have sum := near_zero.add product (by rw [zero_add, abs_le]; constructor <;> linarith)
        (by norm_num)
      rwa [zero_add] at sum

def earnedExact (p : Profile) : ℚ :=
  p.ageTerm + 3 / 10 * indicator p.income + 1 / 5 * indicator p.employment +
    1 / 5 * indicator p.industry + 1 / 5 * (p.tier.halves / 2)

theorem near_earned (p : Profile) : Near p.earned p.earnedExact 16 := by
  have age := ageTerm_mem p
  have income := indicator_mem p.income
  have employment := indicator_mem p.employment
  have industry := indicator_mem p.industry
  have halves := halves_mem p.tier
  have debt : Near (0.2 * p.tier.share) (1 / 5 * (p.tier.halves / 2)) 3 :=
    near_fifth.mul (.of_quantity (Factor.isFinite_share _) (Factor.quantity_share _))
      (by norm_num) (abs_le.2 ⟨by linarith, by linarith⟩) (by norm_num)
  have byIncome := near_add (near_ageTerm p) near_three_tenths p.income
    (abs_le.2 ⟨by linarith, by linarith⟩) (by norm_num)
  have byEmployment := near_add byIncome near_fifth p.employment
    (abs_le.2 ⟨by linarith, by linarith⟩) (by norm_num)
  have byIndustry := near_add byEmployment near_fifth p.industry
    (abs_le.2 ⟨by linarith, by linarith⟩) (by norm_num)
  exact byIndustry.add debt (abs_le.2 ⟨by linarith, by linarith⟩) (by norm_num)

def ownExact (p : Profile) : ℚ :=
  p.earnedExact - 1 / 10 * indicator p.highDebt - 1 / 20 * indicator p.isDeducted

theorem ownExact_eq (p : Profile) : p.ownExact = p.ownUnits / 18000 := by
  rw [ownExact, earnedExact, ownUnits, ageTerm]
  cases p.age <;> simp only [Option.elim] <;> push_cast [Nat.cast_natAbs] <;> ring

theorem abs_ownExact_le (p : Profile) :
    |p.earnedExact - 1 / 10 * indicator p.highDebt| ≤ 1 ∧ |p.ownExact| ≤ 1 := by
  have age := ageTerm_mem p
  have income := indicator_mem p.income
  have employment := indicator_mem p.employment
  have industry := indicator_mem p.industry
  have halves := halves_mem p.tier
  have highDebt := indicator_mem p.highDebt
  have deducted := indicator_mem p.isDeducted
  simp only [ownExact, earnedExact, abs_le]
  refine ⟨⟨?_, ?_⟩, ?_, ?_⟩ <;> linarith

theorem near_own (p : Profile) : Near p.own p.ownExact 20 := by
  obtain ⟨first, second⟩ := abs_ownExact_le p
  have debt := near_less (near_earned p) near_tenth p.highDebt first (by norm_num)
  exact near_less debt near_twentieth p.isDeducted second (by norm_num)

theorem near_multiplier {r : Region} {m : Float} (h : r.multiplier? = some m) :
    Near m (r.twentieths / 20) 1 := by
  cases r <;> cases h <;> refine near_literal ?_ ?_ ?_ ?_ <;> norm_num [Region.twentieths, abs_lt]

/-- The rounded total is close to the exact total, within 42 half steps of the grid below 2. -/
theorem near_total (p : Profile) : Near p.total p.exact 42 := by
  have own := near_own p
  have hown := (abs_ownExact_le p).2
  have hexact : p.exact = p.ownExact * (p.region.twentieths / 20) := by
    rw [exact, units, ownExact_eq]
    push_cast
    ring
  rw [hexact, total]
  cases hm : p.region.multiplier? with
  | none =>
      have full : p.region.twentieths = 20 := by
        cases hr : p.region <;> rw [hr] at hm <;> first | rfl | cases hm
      rw [full, Int.cast_ofNat, div_self (by norm_num), mul_one]
      exact own.mono (by norm_num)
  | some m =>
      have size : |(p.region.twentieths / 20 : ℚ)| ≤ 1 := by
        cases p.region <;> norm_num [Region.twentieths, abs_le]
      exact own.mul (near_multiplier hm) hown size (by norm_num)

end Profile
end CreditRating

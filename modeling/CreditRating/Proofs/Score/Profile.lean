import CreditRating.Batch
import CreditRating.Proofs.Score.Exact

/-!
What the standard score depends on. A client's profile is the age where it counts
and one answer for each other question. Both the rounded and the exact total are
computed from it, and they are near each other.
-/

namespace CreditRating

open Binary

/-- The countries that the standard engine tells apart. -/
inductive Region where
  | unlisted
  | full
  | de
  | gr
  | br
  deriving DecidableEq

namespace Region

def ofCountry (country : String) : Region :=
  if country = "AT" ∨ country = "US" then full
  else if country = "DE" then de
  else if country = "GR" then gr
  else if country = "BR" then br
  else unlisted

def multiplier? : Region → Option Float
  | unlisted => none
  | full => some 1.0
  | de => some 0.95
  | gr => some 0.7
  | br => some 0.6

def twentieths : Region → ℤ
  | unlisted | full => 20
  | de => 19
  | gr => 14
  | br => 12

end Region

abbrev CountedAge : Type := {n : ℤ // 18 ≤ n ∧ n ≤ 75}

structure Profile where
  age : Option CountedAge
  income : Bool
  employment : Bool
  industry : Bool
  tier : Factor.DebtTier
  highDebt : Bool
  region : Region

def indicator (b : Bool) : ℤ := if b then 1 else 0

namespace Profile

def isDeducted (p : Profile) : Bool :=
  match p.age with
  | some n => n.1 < 21
  | none => true

/-- The rounded total of the five factors. -/
def earned (p : Profile) : Float :=
  let byAge := Finding.add 0.0 (p.age.map fun n => 0.1 * Factor.ageShare n)
  let byIncome := Finding.add byAge (onlyIf p.income 0.3)
  let byEmployment := Finding.add byIncome (onlyIf p.employment 0.2)
  let byIndustry := Finding.add byEmployment (onlyIf p.industry 0.2)
  byIndustry + 0.2 * p.tier.share

def less (x : Float) (b : Bool) (amount : Float) : Float :=
  if b then x - amount else x

def own (p : Profile) : Float :=
  less (less p.earned p.highDebt Factor.highDebtDeduction) p.isDeducted
    Factor.ageDeductionAmount

def total (p : Profile) : Float :=
  match p.region.multiplier? with
  | some m => p.own * m
  | none => p.own

/-- The exact total before the step of the country in parts of 18000. -/
def ownUnits (p : Profile) : ℤ :=
  p.age.elim 0 (fun n => 40 * (45 - ((45 - n.1).natAbs : ℤ))) + 5400 * indicator p.income +
    3600 * indicator p.employment + 3600 * indicator p.industry + 1800 * p.tier.halves -
    1800 * indicator p.highDebt - 900 * indicator p.isDeducted

/-- The exact total in parts of 360000. -/
def units (p : Profile) : ℤ := p.ownUnits * p.region.twentieths

def exact (p : Profile) : ℚ := p.units / 360000

def ofClient (c : Client) : Profile where
  age := if h : 18 ≤ c.age.toInt ∧ c.age.toInt ≤ 75 then some ⟨c.age.toInt, h⟩ else none
  income := Factor.meetsIncome c.income
  employment := Engine.standard.isStable c.employment
  industry := Engine.standard.isSafe c.industry
  tier := .ofRatio c.debtRatio
  highDebt := Factor.isHighDebt c.debt
  region := .ofCountry c.country

theorem isDeducted_ofClient (c : Client) :
    (ofClient c).isDeducted = Factor.isDeductedAge c.age := by
  simp only [isDeducted, ofClient, Factor.isDeductedAge_eq]
  by_cases h : 18 ≤ c.age.toInt ∧ c.age.toInt ≤ 75
  · simp only [dif_pos h, decide_eq_decide]
    omega
  · simp only [dif_neg h, true_eq_decide_iff]
    omega

end Profile

theorem standard_multiplier? (country : String) :
    Engine.standard.multiplier? country = (Region.ofCountry country).multiplier? := by
  have entries : Engine.standard.multipliers.entries =
      [("AT", 1.0), ("BR", 0.6), ("DE", 0.95), ("GR", 0.7), ("US", 1.0)] := by decide
  rw [Engine.multiplier?, Table.get?, entries]
  by_cases at' : country = "AT"
  · rw [at']; rfl
  by_cases br : country = "BR"
  · rw [br]; rfl
  by_cases de : country = "DE"
  · rw [de]; rfl
  by_cases gr : country = "GR"
  · rw [gr]; rfl
  by_cases us : country = "US"
  · rw [us]; rfl
  simp [List.lookup_cons, beq_eq_false_iff_ne.2, Region.ofCountry, Region.multiplier?,
    at', br, de, gr, us]

theorem foldl_onlyIf (x : Float) (b : Bool) (f : Finding) :
    (onlyIf b f).toList.foldl Finding.apply x = if b then f.apply x else x := by
  cases b <;> rfl

/-- The standard score of a client is that of its profile. -/
theorem unclamped_standard (c : Client) :
    (explain Engine.standard Weights.standard c).unclamped = (Profile.ofClient c).total := by
  have age : Weights.weight Weights.standard "age" = 0.1 := by decide
  have income : Weights.weight Weights.standard "income" = 0.3 := by decide
  have employment : Weights.weight Weights.standard "employment" = 0.2 := by decide
  have industry : Weights.weight Weights.standard "industry" = 0.2 := by decide
  have debt : Weights.weight Weights.standard "debt" = 0.2 := by decide
  simp only [explain, total, findings, onlyIf_debtDeduction, onlyIf_ageDeduction,
    List.foldl_append, List.foldl_cons, List.foldl_nil, foldl_onlyIf, age, income, employment, industry, debt, standard_multiplier?, Finding.apply,
    Profile.total, Profile.own, Profile.earned, Profile.less, Profile.isDeducted_ofClient]
  simp only [Profile.ofClient, Factor.ageShare?_eq]
  by_cases h : 18 ≤ c.age.toInt ∧ c.age.toInt ≤ 75
  · simp only [if_pos h, dif_pos h]
    cases (Region.ofCountry c.country).multiplier? <;> rfl
  · simp only [if_neg h, dif_neg h]
    cases (Region.ofCountry c.country).multiplier? <;> rfl

namespace Profile

theorem indicator_true : indicator true = 1 := rfl

theorem indicator_false : indicator false = 0 := rfl

theorem when_eq (p : Prop) [Decidable p] (q : ℚ) : Exact.when p q = q * indicator (decide p) := by
  by_cases h : p <;> simp [Exact.when, indicator, h]

theorem share_eq (t : Factor.DebtTier) : Exact.share t = t.halves / 2 := by
  cases t <;> norm_num [Exact.share, Factor.DebtTier.halves]

theorem multiplier_eq (country : String) :
    Exact.multiplier country = (Region.ofCountry country).twentieths / 20 := by
  by_cases at' : country = "AT"
  · simp [at', Exact.multiplier, Region.ofCountry, Region.twentieths]
  by_cases us : country = "US"
  · simp [us, Exact.multiplier, Region.ofCountry, Region.twentieths]
  rw [Exact.multiplier, Region.ofCountry, if_neg (not_or.2 ⟨at', us⟩)]
  split_ifs <;> norm_num [Region.twentieths]

theorem meetsIncome_eq {x : Float} (h : x.isNaN = false) :
    Factor.meetsIncome x = decide (30000 ≤ quantity x) := by
  have threshold := quantity_whole (m := 300000) (e := 1) (n := 30000) (by norm_num) (by norm_num)
    (by norm_num) (by norm_num)
  rw [Factor.meetsIncome, decide_eq_decide, Factor.incomeThreshold,
    le_iff (isNaN_of_isFinite threshold.1) h, threshold.2, Int.cast_ofNat]

theorem isHighDebt_eq {x : Float} (h : x.isNaN = false) :
    Factor.isHighDebt x = decide (50000 < quantity x) := by
  have threshold := quantity_whole (m := 500000) (e := 1) (n := 50000) (by norm_num) (by norm_num)
    (by norm_num) (by norm_num)
  rw [Factor.isHighDebt, decide_eq_decide, Factor.highDebtThreshold,
    lt_iff (isNaN_of_isFinite threshold.1) h, threshold.2, Int.cast_ofNat]

theorem exact_ofClient {c : Client} (income : c.income.isNaN = false)
    (debt : c.debt.isNaN = false) : Exact.unclamped c = (ofClient c).exact := by
  have stable : decide (c.employment ∈ ["permanent", "self-employed"]) =
      Engine.standard.isStable c.employment := (List.contains_eq_mem _ _).symm
  have safe : decide (c.industry ∈ ["finance", "it", "pharma"]) =
      Engine.standard.isSafe c.industry := (List.contains_eq_mem _ _).symm
  simp only [Exact.unclamped, Exact.earned, Exact.deducted, when_eq, share_eq, multiplier_eq,
    stable, safe, ← meetsIncome_eq income, ← isHighDebt_eq debt, ← Factor.isDeductedAge_eq,
    ← isDeducted_ofClient, exact, units, ownUnits]
  generalize (ofClient c).isDeducted = deducted
  simp only [ofClient]
  by_cases h : 18 ≤ c.age.toInt ∧ c.age.toInt ≤ 75
  · simp only [dif_pos h, decide_eq_true h, indicator_true, Option.elim]
    push_cast [Nat.cast_natAbs]
    ring
  · simp only [dif_neg h, decide_eq_false h, indicator_false, Option.elim]
    push_cast
    ring

end Profile
end CreditRating

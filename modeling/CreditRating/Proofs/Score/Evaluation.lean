import CreditRating.Proofs.Binary.Neutral
import CreditRating.Proofs.Score.Raising

/-!
The unclamped score as one formula. Findings leave the total alone where nothing is earned or
deducted and where the country has no multiplier. The formula has a term for each of them, and
the terms that the findings leave out change no bit of the total: the sum of the factors is
never the negative zero.
-/

namespace CreditRating

open Binary

namespace Formula

variable (e : Engine) (weights : Table) (c : Client)

def age : Float :=
  if 18 ≤ c.age ∧ c.age ≤ 75 then
    Weights.weight weights "age" * (1.0 - (45.0 - Float.ofInt c.age.toInt).abs / 45.0)
  else 0.0

def income : Float := if 30000.0 ≤ c.income then Weights.weight weights "income" else 0.0

def employment : Float :=
  if e.isStable c.employment then Weights.weight weights "employment" else 0.0

def industry : Float := if e.isSafe c.industry then Weights.weight weights "industry" else 0.0

def debt : Float :=
  if c.debt / (c.income + 1) ≤ 0.25 then Weights.weight weights "debt"
  else if c.debt / (c.income + 1) ≤ 0.5 then Weights.weight weights "debt" / 2.0
  else 0.0

def highDebt : Float := if 50000.0 < c.debt then 0.1 else 0.0

def deductedAge : Float := if c.age < 21 ∨ 75 < c.age then 0.05 else 0.0

def total : Float :=
  (((((((0.0 + age weights c) + income weights c) + employment e weights c) +
    industry e weights c) + debt weights c) - highDebt c) - deductedAge c) *
      e.multiplier c.country

end Formula

namespace Finding

variable {x w : Float} (weights : Table) (c : Client)

/-- The finding adds the number to every total that can occur. -/
def Adds (f : Finding) (w : Float) : Prop :=
  ∀ x : Float, ¬ IsNegativeZero x → f.apply x = x + w

/-- Findings that add their terms add up to the sum of these. -/
theorem foldl_eq_of_adds {fs : List Finding} {ws : List Float} (h : List.Forall₂ Adds fs ws)
    {x : Float} (hx : ¬ IsNegativeZero x) : fs.foldl apply x = ws.foldl (· + ·) x := by
  induction h generalizing x with
  | nil => rfl
  | cons first _ ih =>
      simp only [List.foldl_cons, first x hx]
      exact ih (Binary.not_isNegativeZero_add hx _)

/-- What is not earned can be added as a zero. -/
theorem add_earned (hx : ¬ IsNegativeZero x) (earned : Option Float) :
    add x earned = x + earned.getD 0.0 := by
  cases earned with
  | some w => rfl
  | none => exact (add_of_quantity_zero hx (by decide) Factor.quantity_zero).symm

/-- What counts as a whole or not at all. -/
theorem adds_of_onlyIf {f : Finding} {b : Bool} (h : ∀ x, f.apply x = add x (onlyIf b w)) :
    Adds f (if b then w else 0.0) := by
  intro x hx
  rw [h, add_earned hx]
  cases b <;> rfl

theorem adds_age : Adds (.age c.age ((Factor.ageShare? c.age).map fun share =>
    (share, Weights.weight weights "age"))) (Formula.age weights c) := by
  intro x hx
  simp only [apply, add_earned hx, Formula.age, Factor.ageShare?]
  split <;> rfl

theorem adds_income : Adds (.income c.income (onlyIf (Factor.meetsIncome c.income)
    (Weights.weight weights "income"))) (Formula.income weights c) := by
  have term := adds_of_onlyIf (f := .income c.income (onlyIf (Factor.meetsIncome c.income)
    (Weights.weight weights "income"))) fun _ => rfl
  simp only [Factor.meetsIncome, decide_eq_true_eq] at term
  exact term

theorem adds_employment (e : Engine) :
    Adds (.employment c.employment (onlyIf (e.isStable c.employment)
      (Weights.weight weights "employment"))) (Formula.employment e weights c) :=
  adds_of_onlyIf fun _ => rfl

theorem adds_industry (e : Engine) :
    Adds (.industry c.industry (onlyIf (e.isSafe c.industry)
      (Weights.weight weights "industry"))) (Formula.industry e weights c) :=
  adds_of_onlyIf fun _ => rfl

end Finding

namespace Factor.DebtTier

/-- The weight, its half or nothing. -/
def part (w : Float) : DebtTier → Float
  | low => w
  | moderate => w / 2.0
  | high => 0.0

theorem part_ofRatio (w r : Float) :
    (ofRatio r).part w = if r ≤ 0.25 then w else if r ≤ 0.5 then w / 2.0 else 0.0 := by
  simp only [ofRatio]
  split
  · rfl
  · split <;> rfl

/-- For a finite weight only: an infinite one times the share 0 is no number. -/
theorem add_mul_share {x w : Float} (hx : ¬ IsNegativeZero x) (hw : w.isFinite) (t : DebtTier) :
    x + w * t.share = x + t.part w := by
  have number := isNaN_of_isFinite (isFinite_mul_share hw t)
  have product := quantity_mul hw (isFinite_share t)
  rw [quantity_share] at product
  cases t with
  | low =>
      have whole : w * low.share = w := mul_of_quantity_one w isFinite_one quantity_one
      exact congrArg (x + ·) whole
  | moderate =>
      have two : (2.0 : Float).isFinite := by decide
      have value : quantity 2.0 = 2 := by decide +kernel
      have nonzero : quantity 2.0 ≠ 0 := by simp [value]
      apply add_eq_add_of_quantity_eq hx number (isNaN_div_of_isFinite hw two nonzero)
      rw [product, quantity_div hw two nonzero, value]
      simp [halves, div_eq_mul_inv]
  | high =>
      apply add_eq_add_of_quantity_eq hx number (isNaN_of_isFinite isFinite_zero)
      rw [product, quantity_zero]
      simp [halves, bounded_zero]

end Factor.DebtTier

theorem Finding.adds_debt {weights : Table} (c : Client)
    (hw : (Weights.weight weights "debt").isFinite) :
    Adds (.debt c.debtRatio (.ofRatio c.debtRatio) (Weights.weight weights "debt"))
      (Formula.debt weights c) := by
  intro x hx
  simp only [apply, Factor.DebtTier.add_mul_share hx hw, Factor.DebtTier.part_ofRatio]
  rfl

section

variable {e : Engine} {weights : Table} {c : Client}

/-- A deduction that does not apply can be taken as the subtraction of a zero. -/
theorem foldl_deduction {f : Finding} {amount : Float} (h : ∀ x, f.apply x = x - amount) (b : Bool)
    (x : Float) : (onlyIf b f).toList.foldl Finding.apply x = x - if b then amount else 0.0 := by
  cases b with
  | true => exact h x
  | false =>
      have nothing : unpacked 0.0 = .zero .positive := rfl
      exact (sub_of_unpacked_zero x nothing).symm

theorem foldl_highDebt (x : Float) :
    (onlyIf (Factor.isHighDebt c.debt)
        (.highDebt c.debt Factor.highDebtDeduction)).toList.foldl Finding.apply x =
      x - Formula.highDebt c := by
  rw [foldl_deduction (f := .highDebt c.debt _) fun _ => rfl]
  simp only [Factor.isHighDebt, decide_eq_true_eq]
  rfl

theorem foldl_deductedAge (x : Float) :
    (onlyIf (Factor.isDeductedAge c.age)
        (.deductedAge c.age Factor.ageDeductionAmount)).toList.foldl Finding.apply x =
      x - Formula.deductedAge c := by
  rw [foldl_deduction (f := .deductedAge c.age _) fun _ => rfl]
  simp only [Factor.isDeductedAge, Bool.or_eq_true, decide_eq_true_eq]
  rfl

/-- A country without a multiplier can be taken as one with the multiplier 1. -/
theorem foldl_country (x : Float) :
    ((e.multiplier? c.country).map (.country c.country)).toList.foldl Finding.apply x =
      x * e.multiplier c.country := by
  rw [Engine.multiplier]
  cases e.multiplier? c.country with
  | some m => rfl
  | none => exact (mul_of_quantity_one x Factor.isFinite_one Factor.quantity_one).symm

end

/-- With a finite weight of the debt, the unclamped score is the value of the formula in all its
bits, whatever the other weights and the multipliers are. The score is that value brought into
[0, 1]. -/
theorem unclamped_eq_formula (e : Engine) (weights : Table) (c : Client)
    (finite : (Weights.weight weights "debt").isFinite) :
    (explain e weights c).unclamped = Formula.total e weights c ∧
      ClampOf (Formula.total e weights c) (score e weights c) := by
  have start : ¬ IsNegativeZero 0.0 := nofun
  have factors := Finding.foldl_eq_of_adds
    (.cons (Finding.adds_age weights c) (.cons (Finding.adds_income weights c)
      (.cons (Finding.adds_employment weights c e) (.cons (Finding.adds_industry weights c e)
        (.cons (Finding.adds_debt c finite) .nil))))) start
  have unclamped : (explain e weights c).unclamped = Formula.total e weights c := by
    simp only [explain, total, findings, onlyIf_debtDeduction, onlyIf_ageDeduction,
      List.foldl_append, factors, foldl_highDebt, foldl_deductedAge, foldl_country]
    rfl
  refine ⟨unclamped, ?_⟩
  rw [← unclamped]
  exact clampOf_clampUnit _

/-- Weights of both infinities, which leave no number together. -/
def oppositeWeights : Table :=
  .ofList [("age", 1.0 / 0.0), ("income", -1.0 / 0.0), ("debt", -0.3)]

theorem unclamped_eq_formula_oppositeWeights :
    (Formula.total Engine.standard oppositeWeights steadyClient).isNaN ∧
      (explain Engine.standard oppositeWeights steadyClient).unclamped =
        Formula.total Engine.standard oppositeWeights steadyClient ∧
      ClampOf (Formula.total Engine.standard oppositeWeights steadyClient)
        (score Engine.standard oppositeWeights steadyClient) :=
  ⟨by decide +kernel, unclamped_eq_formula _ _ _ (by decide +kernel)⟩

end CreditRating

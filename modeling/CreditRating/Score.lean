import CreditRating.Decimal.Notation
import CreditRating.Engine

/-!
A client's score. Findings about the client move a running total one after the
other: the five weighted factors, then the flat deductions, then the multiplier
of the country. The total is brought into [0, 1] at the end, and every step is
kept with the total before and after it.
-/

namespace CreditRating

open Decimal (fixed)

/-- One thing found about a client that may move the total. -/
inductive Finding where
  /-- The age with its share and weight, if it is in the range that earns one. -/
  | age (age : Int32) (earned : Option (Float × Float))
  /-- The income, and the weight if it is reached. -/
  | income (income : Float) (earned : Option Float)
  | employment (label : String) (earned : Option Float)
  | industry (label : String) (earned : Option Float)
  | debt (ratio : Float) (tier : Factor.DebtTier) (weight : Float)
  | highDebt (debt : Float) (amount : Float)
  | deductedAge (age : Int32) (amount : Float)
  | country (code : String) (multiplier : Float)
  deriving Repr

namespace Finding

def label : Finding → String
  | age .. => "Age"
  | income .. => "Income"
  | employment .. => "Employment"
  | industry .. => "Industry"
  | debt .. => "Debt"
  | highDebt .. => "High debt penalty"
  | deductedAge .. => "Age penalty"
  | country .. => "Country"

/-- Adds what is earned. Where nothing is, the total stays as it is. -/
def add (total : Float) : Option Float → Float
  | some w => total + w
  | none => total

def apply (total : Float) : Finding → Float
  | age _ earned => add total (earned.map fun e => e.2 * e.1)
  | income _ earned => add total earned
  | employment _ earned => add total earned
  | industry _ earned => add total earned
  | debt _ tier weight => total + weight * tier.share
  | highDebt _ amount | deductedAge _ amount => total - amount
  | country _ multiplier => total * multiplier

def quoted (s : String) : String := "'" ++ s ++ "'"

def description : Finding → String
  | age n (some (share, weight)) =>
      "age " ++ toString n.toInt ++ " -> " ++ fixed 3 share ++ " x " ++ plainText weight
  | age n none => "age " ++ toString n.toInt ++ " outside 18-75"
  | income x earned =>
      fixed 0 x ++ (if earned.isSome then " >= " else " below ") ++ fixed 0 Factor.incomeThreshold
  | employment s earned => quoted s ++ (if earned.isSome then " stable" else " not stable")
  | industry s earned => quoted s ++ (if earned.isSome then " safe" else " not safe")
  | debt ratio tier _ =>
      "dti " ++ fixed 3 ratio ++ " (" ++ tier.label ++ ", x" ++ plainText tier.share ++ ")"
  | highDebt x amount => "debt " ++ fixed 0 x ++ " -> -" ++ plainText amount
  | deductedAge n amount => "age " ++ toString n.toInt ++ " -> -" ++ plainText amount
  | country code m => code ++ " x" ++ plainText m

end Finding

def onlyIf {α : Type} (p : Bool) (x : α) : Option α :=
  if p then some x else none

/-- What is found about a client, in the order in which it counts. -/
def findings (e : Engine) (weights : Table) (c : Client) : List Finding :=
  let tier := Factor.DebtTier.ofRatio c.debtRatio
  let byDebt := Factor.debtDeduction c.debt
  let byAge := Factor.ageDeduction c.age
  [.age c.age ((Factor.ageShare? c.age).map fun share => (share, Weights.weight weights "age")),
    .income c.income (onlyIf (Factor.meetsIncome c.income) (Weights.weight weights "income")),
    .employment c.employment
      (onlyIf (e.isStable c.employment) (Weights.weight weights "employment")),
    .industry c.industry (onlyIf (e.isSafe c.industry) (Weights.weight weights "industry")),
    .debt c.debtRatio tier (Weights.weight weights "debt")] ++
  (onlyIf (0.0 < byDebt) (.highDebt c.debt byDebt)).toList ++
  (onlyIf (0.0 < byAge) (.deductedAge c.age byAge)).toList ++
  ((e.multiplier? c.country).map (.country c.country)).toList

/-- Only a high debt has a deduction above 0. -/
theorem onlyIf_debtDeduction (debt : Float) :
    onlyIf (0.0 < Factor.debtDeduction debt) (.highDebt debt (Factor.debtDeduction debt)) =
      onlyIf (Factor.isHighDebt debt) (Finding.highDebt debt Factor.highDebtDeduction) := by
  rw [Factor.debtDeduction]
  cases Factor.isHighDebt debt <;> rfl

theorem onlyIf_ageDeduction (age : Int32) :
    onlyIf (0.0 < Factor.ageDeduction age) (.deductedAge age (Factor.ageDeduction age)) =
      onlyIf (Factor.isDeductedAge age) (Finding.deductedAge age Factor.ageDeductionAmount) := by
  rw [Factor.ageDeduction]
  cases Factor.isDeductedAge age <;> rfl

/-- A finding with the total before and after it. -/
structure Step where
  finding : Finding
  before : Float
  after : Float
  deriving Repr

/-- The steps that a list of findings makes from a total. -/
def stepsFrom (total : Float) : List Finding → List Step
  | [] => []
  | f :: fs => ⟨f, total, f.apply total⟩ :: stepsFrom (f.apply total) fs

/-- A number brought into [0, 1]. NaN and the negative zero stay as they are. -/
def clampUnit (x : Float) : Float :=
  if x < 0.0 then 0.0 else if 1.0 < x then 1.0 else x

structure Breakdown where
  steps : List Step
  /-- The total after the last step. -/
  unclamped : Float
  deriving Repr

def Breakdown.score (b : Breakdown) : Float := clampUnit b.unclamped

def total (fs : List Finding) : Float := fs.foldl Finding.apply 0.0

def explain (e : Engine) (weights : Table) (c : Client) : Breakdown :=
  let fs := findings e weights c
  ⟨stepsFrom 0.0 fs, total fs⟩

def score (e : Engine) (weights : Table) (c : Client) : Float :=
  (explain e weights c).score

end CreditRating

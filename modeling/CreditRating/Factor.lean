import CreditRating.Client

/-!
The rules of single factors: how much of its weight a client's age, income and
debt earn, and which flat deductions apply.
-/

namespace CreditRating
namespace Factor

def peakAge : Float := 45.0

/-- What part of its weight an age earns: all of it at 45, less for each year
away from 45, and nothing that counts outside of 18 to 75. -/
def ageShare? (age : Int32) : Option Float :=
  if 18 ≤ age ∧ age ≤ 75 then
    some (1.0 - (peakAge - Float.ofInt age.toInt).abs / peakAge)
  else none

def incomeThreshold : Float := 30000.0

def meetsIncome (income : Float) : Bool := incomeThreshold ≤ income

/-- How heavy a debt is, measured by the income. -/
inductive DebtTier where
  | low
  | moderate
  | high
  deriving DecidableEq, Repr

namespace DebtTier

/-- Up to a quarter is low and up to a half is moderate. What compares with
neither is high. -/
def ofRatio (ratio : Float) : DebtTier :=
  if ratio ≤ 0.25 then low else if ratio ≤ 0.5 then moderate else high

def share : DebtTier → Float
  | low => 1.0
  | moderate => 0.5
  | high => 0.0

def label : DebtTier → String
  | low => "low"
  | moderate => "moderate"
  | high => "high"

end DebtTier

def highDebtThreshold : Float := 50000.0

def highDebtDeduction : Float := 0.1

def ageDeductionAmount : Float := 0.05

def isHighDebt (debt : Float) : Bool := highDebtThreshold < debt

/-- Younger than 21 or older than 75. -/
def isDeductedAge (age : Int32) : Bool := age < 21 || 75 < age

def debtDeduction (debt : Float) : Float :=
  if isHighDebt debt then highDebtDeduction else 0.0

def ageDeduction (age : Int32) : Float :=
  if isDeductedAge age then ageDeductionAmount else 0.0

end Factor

def factorNames : List String := ["age", "income", "employment", "industry", "debt"]

end CreditRating

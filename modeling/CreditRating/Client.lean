/-!
One client profile, and the rules that it has to satisfy before it is scored. Every violated rule
is reported, not only the first.
-/

namespace CreditRating

structure Client where
  id : String
  name : String
  /-- Any text; a country that has no multiplier is legal. -/
  country : String
  /-- An open label that scoring does not look at. -/
  clientType : String
  age : Int32
  income : Float
  employment : String
  industry : String
  debt : Float
  /-- 0 until the profile has been scored. -/
  score : Float
  deriving DecidableEq, Repr

/-- Debt over income. One is added to the income, so that no income is finite too. -/
def Client.debtRatio (c : Client) : Float :=
  c.debt / (c.income + 1)

inductive Violation where
  | age (age : Int32)
  | incomeNotANumber
  | incomeNegative
  | occupationMissing
  | debtNotANumber
  | debtNegative
  deriving DecidableEq, Repr

namespace Violation

def text : Violation → String
  | age n => "Invalid age: " ++ toString n.toInt
  | incomeNotANumber => "Invalid income: NaN"
  | incomeNegative => "Negative income"
  | occupationMissing => "Missing employment or industry info"
  | debtNotANumber => "Invalid debt: NaN"
  | debtNegative => "Negative debt"

def message (row : Nat) (v : Violation) : String :=
  "Row " ++ toString row ++ ": " ++ v.text

end Violation

def amountFault? (x : Float) (notANumber negative : Violation) : Option Violation :=
  if x.isNaN then some notANumber else if x < 0.0 then some negative else none

namespace Client

/-- The violated rules, in the order age, income, occupation, debt. -/
def violations (c : Client) : List Violation :=
  (if c.age ≤ 0 ∨ 120 < c.age then [.age c.age] else []) ++
  (amountFault? c.income .incomeNotANumber .incomeNegative).toList ++
  (if c.employment = "" ∨ c.industry = "" then [.occupationMissing] else []) ++
  (amountFault? c.debt .debtNotANumber .debtNegative).toList

def reasons (c : Client) (row : Nat) : List String :=
  c.violations.map (·.message row)

def isValid (c : Client) : Bool := c.violations.isEmpty

end Client
end CreditRating

import CreditRating.Decimal.Notation
import CreditRating.Engine
import CreditRating.Text

/-!
The scoring policy that a configuration sets, and the rules for it. Weights
replace the standard table as a whole; multipliers are added to the standard ones.
-/

namespace CreditRating

structure Policy where
  weights : Option Table
  /-- Multipliers by country code. -/
  countries : Option Table
  deriving BEq, Repr

inductive PolicyViolation where
  | unknownFactor (name : String)
  | badWeight (name : String) (weight : Float)
  | emptyCode
  | badMultiplier (code : String) (multiplier : Float)
  deriving Repr

def PolicyViolation.message : PolicyViolation → String
  | unknownFactor name =>
      "scoring.weights." ++ name ++ ": unknown factor (expected one of: " ++
        ", ".intercalate factorNames ++ ")"
  | badWeight name weight =>
      "scoring.weights." ++ name ++ ": must be a non-negative number, got " ++ plainText weight
  | emptyCode => "scoring.countries: empty country code"
  | badMultiplier code multiplier =>
      "scoring.countries." ++ code ++ ": must be a non-negative number, got " ++
        plainText multiplier

/-- Finite and not below zero. The negative zero is not below zero. -/
def isAllowed (x : Float) : Bool := x.isFinite && !(x < 0.0)

namespace Policy

def entriesOf (t : Option Table) : List (String × Float) :=
  (t.map (·.entries)).getD []

def weightTable (p : Policy) : Table := p.weights.getD Weights.standard

def engine (p : Policy) : Engine :=
  Engine.standard.withMultipliers (entriesOf p.countries)

def weightViolations (e : String × Float) : List PolicyViolation :=
  (if factorNames.contains e.1 then [] else [.unknownFactor e.1]) ++
  (if isAllowed e.2 then [] else [.badWeight e.1 e.2])

def countryViolations (e : String × Float) : List PolicyViolation :=
  (if Text.trim e.1.toList = [] then [.emptyCode] else []) ++
  (if isAllowed e.2 then [] else [.badMultiplier e.1 e.2])

/-- All violated rules: the weights by name, then the countries by code. -/
def violations (p : Policy) : List PolicyViolation :=
  (entriesOf p.weights).flatMap weightViolations ++
    (entriesOf p.countries).flatMap countryViolations

end Policy
end CreditRating

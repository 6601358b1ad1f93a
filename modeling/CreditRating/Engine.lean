import CreditRating.Table
import CreditRating.Factor

/-!
What a score is computed with: a table of factor weights, and the labels and
country multipliers that an engine knows.
-/

namespace CreditRating

namespace Weights

/-- The weight of a factor. A factor that is not listed weighs nothing. -/
def weight (t : Table) (factor : String) : Float :=
  (t.get? factor).getD 0.0

def standard : Table :=
  .ofList [("age", 0.1), ("income", 0.3), ("employment", 0.2), ("industry", 0.2), ("debt", 0.2)]

end Weights

structure Engine where
  stableEmployment : List String
  safeIndustries : List String
  multipliers : Table
  deriving BEq, Repr

namespace Engine

def standard : Engine where
  stableEmployment := ["permanent", "self-employed"]
  safeIndustries := ["finance", "it", "pharma"]
  multipliers := .ofList [("AT", 1.0), ("DE", 0.95), ("GR", 0.7), ("US", 1.0), ("BR", 0.6)]

/-- Adds or replaces the multiplier of a country. -/
def withMultiplier (e : Engine) (country : String) (multiplier : Float) : Engine :=
  { e with multipliers := e.multipliers.insert country multiplier }

def withMultipliers (e : Engine) (pairs : List (String × Float)) : Engine :=
  pairs.foldl (fun e p => e.withMultiplier p.1 p.2) e

def isStable (e : Engine) (employment : String) : Bool :=
  e.stableEmployment.contains employment

def isSafe (e : Engine) (industry : String) : Bool :=
  e.safeIndustries.contains industry

def multiplier? (e : Engine) (country : String) : Option Float :=
  e.multipliers.get? country

end Engine
end CreditRating

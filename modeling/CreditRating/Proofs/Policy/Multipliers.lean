import CreditRating.Policy
import CreditRating.Proofs.Table

/-!
The multipliers of an engine as a look-up. An entry that is added decides for its own code
and for no other, so a policy's engine answers with the policy's entry where it has one and
as the standard engine everywhere else.
-/

namespace CreditRating

namespace Engine

theorem multiplier?_withMultiplier (e : Engine) (country code : String) (m : Float) :
    (e.withMultiplier country m).multiplier? code =
      if code = country then some m else e.multiplier? code :=
  e.multipliers.get?_insert country code m

/-- The pairs come before what the engine had. -/
theorem multiplier?_withMultipliers (e : Engine) {pairs : List (String × Float)}
    (sorted : pairs.Pairwise (·.1 < ·.1)) (code : String) :
    (e.withMultipliers pairs).multiplier? code =
      (pairs.lookup code).or (e.multiplier? code) := by
  induction pairs generalizing e with
  | nil => rfl
  | cons p ps ih =>
      obtain ⟨head, tail⟩ := List.pairwise_cons.1 sorted
      have rest := ih (e.withMultiplier p.1 p.2) tail
      rw [multiplier?_withMultiplier] at rest
      refine rest.trans ?_
      rw [lookup_cons_eq]
      by_cases h : code = p.1
      · rw [if_pos h, if_pos h, h, lookup_of_forall_lt head]
        rfl
      · rw [if_neg h, if_neg h]

end Engine

namespace Policy

/-- The multiplier that the policy itself has for a country. -/
def entry? (p : Policy) (code : String) : Option Float := p.countries.bind (·.get? code)

/-- The engine of a policy answers with the policy's entries first. -/
theorem multiplier?_engine (p : Policy) (code : String) :
    p.engine.multiplier? code = (p.entry? code).or (Engine.standard.multiplier? code) := by
  rw [engine, entry?]
  cases p.countries with
  | none => rfl
  | some t => exact Engine.multiplier?_withMultipliers Engine.standard t.sorted code

end Policy
end CreditRating

import Mathlib.Data.List.Forall2
import CreditRating.Run

/-!
How failures are told, with the texts written out for every way in which a run can fail. What the
operating system says about a file is quoted as it is, and what a reader of configurations says
about a text is left open.
-/

namespace CreditRating

theorem NoValidEntries.message_ended (f : NoValidEntries) : f.message ++ "." =
    "No valid entries to score (" ++ toString f.rejected.length ++ " rejected)." := by
  have ending : " rejected)." = " rejected)" ++ "." := by decide
  rw [ending, ← String.append_assoc]
  rfl

namespace Run

end Run
end CreditRating

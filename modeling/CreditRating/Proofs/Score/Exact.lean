import CreditRating.Rating
import CreditRating.Proofs.Score.Share

/-!
The standard score in exact arithmetic. The decimal fractions of the rules are
taken as they are written, and nothing is rounded.
-/

namespace CreditRating
namespace Exact

open Binary (quantity)

def when (p : Prop) [Decidable p] (q : ℚ) : ℚ := if p then q else 0

def share : Factor.DebtTier → ℚ
  | .low => 1
  | .moderate => 1 / 2
  | .high => 0

def earned (c : Client) : ℚ :=
  when (18 ≤ c.age.toInt ∧ c.age.toInt ≤ 75)
      (1 / 10 * (1 - |45 - (c.age.toInt : ℚ)| / 45)) +
    when (30000 ≤ quantity c.income) (3 / 10) +
    when (c.employment ∈ ["permanent", "self-employed"]) (1 / 5) +
    when (c.industry ∈ ["finance", "it", "pharma"]) (1 / 5) +
    1 / 5 * share (.ofRatio c.debtRatio)

def deducted (c : Client) : ℚ :=
  when (50000 < quantity c.debt) (1 / 10) +
    when (c.age.toInt < 21 ∨ 75 < c.age.toInt) (1 / 20)

def multiplier (country : String) : ℚ :=
  if country = "DE" then 19 / 20
  else if country = "GR" then 7 / 10
  else if country = "BR" then 3 / 5
  else 1

def unclamped (c : Client) : ℚ := (earned c - deducted c) * multiplier c.country

def clamp (q : ℚ) : ℚ := max 0 (min 1 q)

def score (c : Client) : ℚ := clamp (unclamped c)

def floors : List (ℚ × Rating) :=
  [(17 / 20, .aaa), (7 / 10, .aa), (3 / 5, .a), (1 / 2, .bbb), (2 / 5, .bb), (3 / 10, .b)]

def rating (q : ℚ) : Rating :=
  ((floors.find? fun f => f.1 ≤ q).map (·.2)).getD .d

/-- The clients whose exact score is a floor that the rounded sum does not reach. They
lack the age factor alone, or they are 30 or 60 years old and earn an income that counts. -/
def FallsShort (c : Client) : Prop :=
  ¬ (18 ≤ c.age.toInt ∧ c.age.toInt ≤ 75) ∧ score c = 17 / 20 ∨
    (c.age.toInt = 30 ∨ c.age.toInt = 60) ∧ 30000 ≤ quantity c.income ∧ score c = 2 / 5

theorem le_clamp_iff {f q : ℚ} (low : 0 < f) (high : f ≤ 1) : f ≤ clamp q ↔ f ≤ q := by
  simp only [clamp, le_max_iff, le_min_iff, not_le.2 low, high, true_and, false_or]

theorem clamp_le_iff {f q : ℚ} (low : 0 < f) (high : f < 1) : clamp q ≤ f ↔ q ≤ f := by
  simp only [clamp, max_le_iff, min_le_iff, low.le, not_le.2 high, true_and, false_or]

theorem clamp_eq_iff {f q : ℚ} (low : 0 < f) (high : f < 1) : clamp q = f ↔ q = f := by
  rw [le_antisymm_iff, le_antisymm_iff, le_clamp_iff low high.le, clamp_le_iff low high]

theorem floor_mem {f : ℚ × Rating} (h : f ∈ floors) : 0 < f.1 ∧ f.1 < 1 := by
  simp only [floors, List.mem_cons, List.not_mem_nil, or_false] at h
  obtain rfl | rfl | rfl | rfl | rfl | rfl := h <;> norm_num

/-- Two lists of floors give the same band if their floors are reached together. -/
theorem find?_floors {α β : Type} {p : α → Bool} {q : β → Bool} {fs : List (α × Rating)}
    {gs : List (β × Rating)}
    (h : List.Forall₂ (fun f g => f.2 = g.2 ∧ p f.1 = q g.1) fs gs) :
    (fs.find? fun f => p f.1).map (·.2) = (gs.find? fun g => q g.1).map (·.2) := by
  induction h with
  | nil => rfl
  | @cons f g fs gs h _ ih =>
      rw [List.find?_cons, List.find?_cons, h.2]
      cases q g.1 with
      | true => exact congrArg some h.1
      | false => exact ih

/-- The clamp takes no exact score over a floor. -/
theorem rating_clamp (q : ℚ) : rating (clamp q) = rating q := by
  have same : List.Forall₂
      (fun f g => f.2 = g.2 ∧ decide (f.1 ≤ clamp q) = decide (g.1 ≤ q)) floors floors := by
    refine List.forall₂_same.2 fun f hf => ⟨rfl, ?_⟩
    obtain ⟨low, high⟩ := floor_mem hf
    exact decide_eq_decide.2 (le_clamp_iff low high.le)
  rw [rating, find?_floors (p := fun f => f ≤ clamp q) (q := fun f => f ≤ q) same, rating]

end Exact
end CreditRating

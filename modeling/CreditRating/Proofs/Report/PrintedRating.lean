import CreditRating.Proofs.Decimal.FixedPlaces
import CreditRating.Proofs.Score.Order
import CreditRating.Report

/-!
The printed score and the printed band. Rounding to two places takes no score over a floor
downwards, since the floors have two places themselves. Upwards it can reach the next floor,
and no other one.
-/

namespace CreditRating

open Binary

namespace Rating

/-- Where each floor that the second test passes has the next lower one pass the first test,
the first band that passes is at most one better. -/
theorem rank_find?_le {p q : Float × Rating → Bool} {fs : List (Float × Rating)}
    (weaker : ∀ f ∈ fs, p f → q f)
    (next : fs.IsChain fun g f => g.2.rank = f.2.rank + 1 ∧ (q g → p f))
    (last : ∀ f ∈ fs.getLast?, f.2.rank = 1) :
    (((fs.find? q).map (·.2)).getD d).rank ≤ (((fs.find? p).map (·.2)).getD d).rank + 1 := by
  induction fs with
  | nil => exact Nat.zero_le _
  | cons g fs ih =>
      obtain ⟨first, rest⟩ := List.forall_mem_cons.1 weaker
      cases hq : q g with
      | true =>
          rw [List.find?_cons_of_pos hq]
          cases hp : p g with
          | true =>
              rw [List.find?_cons_of_pos hp]
              exact Nat.le_succ _
          | false =>
              rw [List.find?_cons_of_neg (by simp [hp])]
              cases fs with
              | nil => exact (last g rfl).le
              | cons f fs =>
                  obtain ⟨above, passes⟩ := (List.isChain_cons_cons.1 next).1
                  rw [List.find?_cons_of_pos (passes hq)]
                  exact above.le
      | false =>
          have hp : p g = false := Bool.eq_false_iff.2 fun hp => Bool.eq_false_iff.1 hq (first hp)
          rw [List.find?_cons_of_neg (p := q) (by simp [hq]), List.find?_cons_of_neg (by simp [hp])]
          refine ih rest next.tail fun f hf => last f ?_
          rw [List.getLast?_cons, Option.mem_def.1 hf]
          rfl

theorem floors_chain :
    floors.IsChain fun g f => g.2.rank = f.2.rank + 1 ∧ quantity f.1 < quantity g.1 := by
  decide +kernel

/-- A floor is the number nearest to a count of hundredths. -/
theorem bounded_toPlaces_floor :
    ∀ f ∈ floors, bounded (Decimal.toPlaces 2 (quantity f.1)) = quantity f.1 := by
  decide +kernel

section

variable {x y : Float} (hx : x.isNaN = false) (hy : y.isNaN = false)
  (shown : quantity y = bounded (Decimal.toPlaces 2 (quantity x))) {f : Float × Rating}
  (hf : f ∈ floors)
include shown hf

theorem floor_le_shown (h : quantity f.1 ≤ quantity x) : quantity f.1 ≤ quantity y := by
  rw [shown, ← bounded_toPlaces_floor f hf]
  exact bounded_mono (Decimal.toPlaces_mono h)

theorem shown_le_floor (h : quantity x ≤ quantity f.1) : quantity y ≤ quantity f.1 := by
  rw [shown, ← bounded_toPlaces_floor f hf]
  exact bounded_mono (Decimal.toPlaces_mono h)

omit hf
include hx hy

/-- The band of a number as it is shown with two places. -/
theorem ofScore_shown :
    ofScore y = ofScore x ∨ (ofScore y).rank = (ofScore x).rank + 1 := by
  have reaches {z : Float} (hz : z.isNaN = false) {f : Float × Rating} (hf : f ∈ floors) :
      decide (f.1 ≤ z) ↔ quantity f.1 ≤ quantity z := by
    rw [decide_eq_true_eq, le_iff (floors_mem f hf).1 hz]
  have weaker : ∀ f ∈ floors, decide (f.1 ≤ x) → decide (f.1 ≤ y) := by
    intro f hf
    rw [reaches hx hf, reaches hy hf]
    exact floor_le_shown shown hf
  have next : floors.IsChain fun g f =>
      g.2.rank = f.2.rank + 1 ∧ (decide (g.1 ≤ y) → decide (f.1 ≤ x)) := by
    refine floors_chain.imp_of_mem_imp fun g f hg hf ⟨above, lower⟩ => ⟨above, ?_⟩
    rw [reaches hy hg, reaches hx hf]
    contrapose!
    intro below
    exact (shown_le_floor shown hf below.le).trans_lt lower
  have low : (ofScore x).rank ≤ (ofScore y).rank := find?_le weaker floors_sorted
  have high : (ofScore y).rank ≤ (ofScore x).rank + 1 :=
    rank_find?_le weaker next (by decide)
  by_cases same : (ofScore y).rank = (ofScore x).rank
  · exact .inl (rank_injective same)
  · exact .inr (by omega)

end

end Rating

/-- Every score is printed as a number, and the band of that number is the printed band or the
next better one. -/
theorem Report.record_rating (c : Client) :
    ∃ text y, record ⟨c, .ofScore c.score⟩ = [c.id, text, (Rating.ofScore c.score).label] ∧
      Decimal.read? text.toList = some y ∧
      (Rating.ofScore y = Rating.ofScore c.score ∨
        (Rating.ofScore y).rank = (Rating.ofScore c.score).rank + 1) := by
  have few : 2 ≤ 2048 := by norm_num
  refine ⟨Decimal.fixed 2 c.score, ?_⟩
  cases finite : c.score.isFinite with
  | true =>
      obtain ⟨y, read, number, shown⟩ := Decimal.read?_fixed_of_isFinite finite few
      exact ⟨y, rfl, read, Rating.ofScore_shown (isNaN_of_isFinite finite) number shown⟩
  | false =>
      refine ⟨c.score, rfl, ?_, .inl rfl⟩
      rw [Decimal.fixed_of_not_finite finite]
      exact Decimal.read?_plainText c.score

/-- A score just below a floor is printed as the floor. -/
example : Decimal.fixed 2 0.846 = "0.85" ∧ Rating.ofScore 0.846 = .aa ∧
    Rating.ofScore 0.85 = .aaa := by decide +kernel

end CreditRating

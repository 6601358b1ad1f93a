import CreditRating.Proofs.Binary.Order
import CreditRating.Proofs.Score.Bands
import CreditRating.Proofs.Score.Range

/-!
The order of scores. A client with more income or less debt earns no less from
any factor and has nothing more deducted, and every rounded step keeps the order
of the totals. The rating follows the score.
-/

namespace CreditRating

open Binary

theorem quantity_nonneg_of_isAllowed {x : Float} (h : isAllowed x) : 0 ≤ quantity x := by
  have finite := isFinite_of_isAllowed h
  simp only [isAllowed, Bool.and_eq_true, Bool.not_eq_true', decide_eq_false_iff_not] at h
  rw [lt_iff (isNaN_of_isFinite finite) (isNaN_of_isFinite Factor.isFinite_zero),
    Factor.quantity_zero, not_lt] at h
  exact h.2

namespace Finding

/-- Wherever the totals stood in order before, they do so after the two findings. -/
def Favors (f g : Finding) : Prop :=
  ∀ x y : Float, x ≤ y → f.apply x ≤ g.apply y

theorem add_le_add {x y : Float} (h : x ≤ y) {earned : Option Float}
    (finite : ∀ w ∈ earned, w.isFinite) : add x earned ≤ add y earned := by
  cases earned with
  | none => exact h
  | some w =>
      have hw := finite w rfl
      exact add_le_add_of_isFinite h (le_self (isNaN_of_isFinite hw)) hw hw

/-- Findings that are bounded keep the order of totals. -/
theorem IsBounded.favors {f : Finding} (h : f.IsBounded) : Favors f f := by
  intro x y hxy
  cases f with
  | age n earned =>
      apply add_le_add hxy
      intro w hw
      obtain ⟨e, he, rfl⟩ := Option.map_eq_some_iff.1 hw
      exact h e he
  | income _ _ | employment _ _ | industry _ _ => exact add_le_add hxy h
  | debt _ _ _ => exact add_le_add_of_isFinite hxy (le_self (isNaN_of_isFinite h)) h h
  | highDebt _ _ | deductedAge _ _ => exact sub_le_sub_of_isFinite hxy h.1
  | country _ _ => exact h.elim

/-- Findings that favour those of another client end with the larger total. -/
theorem foldl_le_foldl {fs gs : List Finding} (h : List.Forall₂ Favors fs gs) {x y : Float}
    (hxy : x ≤ y) : fs.foldl apply x ≤ gs.foldl apply y := by
  induction h generalizing x y with
  | nil => exact hxy
  | cons first _ ih => exact ih (first x y hxy)

theorem foldl_le_foldl_self {fs : List Finding} (h : ∀ f ∈ fs, f.IsBounded) {x y : Float}
    (hxy : x ≤ y) : fs.foldl apply x ≤ fs.foldl apply y :=
  foldl_le_foldl (List.forall₂_same.2 fun f hf => (h f hf).favors) hxy

end Finding

namespace Factor

theorem meetsIncome_of_le {x y : Float} (h : x ≤ y) (hx : meetsIncome x) : meetsIncome y := by
  simp only [meetsIncome, decide_eq_true_eq] at hx ⊢
  exact le_of_le_of_le hx h

theorem isHighDebt_of_le {x y : Float} (h : x ≤ y) (hx : isHighDebt x) : isHighDebt y := by
  simp only [isHighDebt, decide_eq_true_eq] at hx ⊢
  obtain ⟨threshold, -⟩ := isNaN_of_lt hx
  obtain ⟨nx, ny⟩ := isNaN_of_le h
  rw [lt_iff threshold nx] at hx
  rw [lt_iff threshold ny]
  exact hx.trans_le (quantity_le h)

/-- A tier can be judged by the two bounds alone. -/
theorem DebtTier.halves_le {r s : Float} (low : r ≤ 0.25 → s ≤ 0.25) (mid : r ≤ 0.5 → s ≤ 0.5) :
    (ofRatio r).halves ≤ (ofRatio s).halves := by
  simp only [ofRatio]
  by_cases h : r ≤ 0.25
  · simp [h, low h]
  · by_cases h' : r ≤ 0.5
    · simp only [h, h', mid h', if_true, if_false]
      split <;> decide
    · simp only [h, h', if_false]
      split
      · decide
      · split <;> decide

end Factor

section

variable {c : Client} {income debt : Float}

/-- A bound that the debt ratio keeps is kept when the income grows and the debt shrinks. -/
theorem Client.debtRatio_le (valid : c.isValid) (more : c.income ≤ income) (nonneg : 0.0 ≤ debt)
    (less : debt ≤ c.debt) {bound : Float} (finite : bound.isFinite) (h : c.debtRatio ≤ bound) :
    { c with income := income, debt := debt : Client }.debtRatio ≤ bound := by
  obtain ⟨income_nonneg, debt_nonneg⟩ := Client.nonneg_of_isValid valid
  have one : (1 : Float).isFinite := by decide
  have increase {x y : Float} (hxy : x ≤ y) : x + 1 ≤ y + 1 :=
    add_le_add_of_isFinite hxy (le_self (isNaN_of_isFinite one)) one one
  have divisor_pos : 0 < quantity (c.income + 1) := by
    have least : 0 < quantity (0.0 + 1) := by decide +kernel
    exact least.trans_le (quantity_le (increase income_nonneg))
  have debt_pos := quantity_le debt_nonneg
  have less_pos := quantity_le nonneg
  rw [Factor.quantity_zero] at debt_pos less_pos
  have debt_finite : c.debt.isFinite :=
    isFinite_of_div_le h finite (isNaN_of_le debt_nonneg).2 debt_pos
      (isNaN_of_le (increase more)).1 divisor_pos
  have order : debt / (income + 1) ≤ c.debt / (c.income + 1) :=
    div_le_div_of_isFinite less less_pos debt_finite (increase more) divisor_pos
  exact le_of_le_of_le order h

theorem Finding.favors_income {w : Float} (more : c.income ≤ income) (finite : w.isFinite)
    (pos : 0 ≤ quantity w) :
    Favors (.income c.income (onlyIf (Factor.meetsIncome c.income) w))
      (.income income (onlyIf (Factor.meetsIncome income) w)) := by
  intro x y hxy
  cases before : Factor.meetsIncome c.income with
  | true =>
      rw [Factor.meetsIncome_of_le more before]
      exact add_le_add_of_isFinite hxy (le_self (isNaN_of_isFinite finite)) finite finite
  | false =>
      cases Factor.meetsIncome income with
      | true => exact le_add_of_isFinite hxy finite pos
      | false => exact hxy

theorem Finding.favors_debt {r s w : Float} {t u : Factor.DebtTier} (tier : t.halves ≤ u.halves)
    (hw : w.isFinite) (pos : 0 ≤ quantity w) : Favors (.debt r t w) (.debt s u w) := by
  intro x y hxy
  have finite := isFinite_mul_share hw
  have ht := Factor.isFinite_share t
  have hu := Factor.isFinite_share u
  have shares : t.share ≤ u.share := by
    rw [le_iff (isNaN_of_isFinite ht) (isNaN_of_isFinite hu), Factor.quantity_share,
      Factor.quantity_share]
    have halves : (t.halves : ℚ) ≤ u.halves := by exact_mod_cast tier
    linarith
  exact add_le_add_of_isFinite hxy (mul_le_mul_left_of_isFinite hw pos shares ht hu) (finite t)
    (finite u)

/-- A deduction that the larger total has, the smaller one has as well. -/
theorem Finding.foldl_deduction_le {f g : Finding} (amount : Float) (finite : amount.isFinite)
    (pos : 0 ≤ quantity amount) (hf : ∀ x, f.apply x = x - amount)
    (hg : ∀ x, g.apply x = x - amount) {b d : Bool} (both : d → b) {x y : Float} (hxy : x ≤ y) :
    (onlyIf b f).toList.foldl apply x ≤ (onlyIf d g).toList.foldl apply y := by
  rw [foldl_onlyIf, foldl_onlyIf, hf, hg]
  cases d with
  | true =>
      rw [both rfl]
      exact sub_le_sub_of_isFinite hxy finite
  | false =>
      cases b with
      | true => exact sub_le_of_isFinite hxy finite pos
      | false => exact hxy

theorem Finding.foldl_highDebt_le (less : debt ≤ c.debt) {x y : Float} (hxy : x ≤ y) :
    (onlyIf (Factor.isHighDebt c.debt)
        (highDebt c.debt Factor.highDebtDeduction)).toList.foldl apply x ≤
      (onlyIf (Factor.isHighDebt debt)
        (highDebt debt Factor.highDebtDeduction)).toList.foldl apply y :=
  foldl_deduction_le Factor.highDebtDeduction (by decide) (by decide +kernel)
    (fun _ => rfl) (fun _ => rfl) (Factor.isHighDebt_of_le less) hxy

variable {p : Policy} (accepted : p.violations = [])
include accepted

/-- More income and less debt leave no lower total before the step of the country. -/
theorem ownTotal_le (valid : c.isValid) (more : c.income ≤ income) (nonneg : 0.0 ≤ debt)
    (less : debt ≤ c.debt) :
    ownTotal p.engine p.weightTable c ≤
      ownTotal p.engine p.weightTable { c with income := income, debt := debt } := by
  have finite := p.isFinite_weight accepted
  have pos (factor : String) : 0 ≤ quantity (Weights.weight p.weightTable factor) :=
    quantity_nonneg_of_isAllowed (p.isAllowed_weight accepted factor)
  have tier : (Factor.DebtTier.ofRatio c.debtRatio).halves ≤
      (Factor.DebtTier.ofRatio
        { c with income := income, debt := debt : Client }.debtRatio).halves :=
    Factor.DebtTier.halves_le
      (fun h => Client.debtRatio_le valid more nonneg less (by decide) h)
      (fun h => Client.debtRatio_le valid more nonneg less (by decide) h)
  have bounded := isBounded_findings (e := p.engine) finite c
  simp only [findings, onlyIf_debtDeduction, onlyIf_ageDeduction, List.forall_mem_append,
    List.forall_mem_cons] at bounded
  obtain ⟨⟨⟨⟨age, -, employment, industry, -⟩, -⟩, deductedAge⟩, country⟩ := bounded
  simp only [ownTotal, total, findings, onlyIf_debtDeduction, onlyIf_ageDeduction,
    List.foldl_append]
  apply Finding.foldl_le_foldl_self country
  apply Finding.foldl_le_foldl_self deductedAge
  apply Finding.foldl_highDebt_le less
  apply Finding.foldl_le_foldl _ (le_self (by decide))
  exact .cons age.favors (.cons (Finding.favors_income more (finite "income") (pos "income"))
    (.cons employment.favors (.cons industry.favors
      (.cons (Finding.favors_debt tier (finite "debt") (pos "debt")) .nil))))

/-- Before the score is brought into its range, the order is that of the totals. -/
theorem unclamped_le_of_ownTotal_le {d : Client} (country : d.country = c.country)
    (order : ownTotal p.engine p.weightTable c ≤ ownTotal p.engine p.weightTable d)
    (number : (explain p.engine p.weightTable c).unclamped.isNaN = false)
    (number' : (explain p.engine p.weightTable d).unclamped.isNaN = false) :
    (explain p.engine p.weightTable c).unclamped ≤
      (explain p.engine p.weightTable d).unclamped := by
  rw [unclamped_eq] at number number' ⊢
  rw [unclamped_eq]
  rw [country] at number' ⊢
  cases hm : p.engine.multiplier? c.country with
  | none =>
      simp only [hm] at number number' ⊢
      exact order
  | some m =>
      simp only [hm] at number number' ⊢
      have allowed := p.isAllowed_multiplier accepted hm
      exact mul_le_mul_of_nonneg order (isFinite_of_isAllowed allowed)
        (quantity_nonneg_of_isAllowed allowed) number number'

theorem unclamped_le (valid : c.isValid) (more : c.income ≤ income) (nonneg : 0.0 ≤ debt)
    (less : debt ≤ c.debt)
    (number : (explain p.engine p.weightTable c).unclamped.isNaN = false)
    (number' : (explain p.engine p.weightTable
      { c with income := income, debt := debt }).unclamped.isNaN = false) :
    (explain p.engine p.weightTable c).unclamped ≤
      (explain p.engine p.weightTable { c with income := income, debt := debt }).unclamped :=
  unclamped_le_of_ownTotal_le accepted rfl (ownTotal_le accepted valid more nonneg less) number
    number'

end

theorem clampUnit_le_clampUnit {x y : Float} (h : x ≤ y) : clampUnit x ≤ clampUnit y := by
  obtain ⟨hx, hy⟩ := isNaN_of_le h
  rw [le_iff ((isNaN_clampUnit x).trans hx) ((isNaN_clampUnit y).trans hy),
    quantity_clampUnit hx, quantity_clampUnit hy]
  exact max_le_max le_rfl (min_le_min le_rfl (quantity_le h))

namespace Rating

/-- The first band that passes a weaker test is no worse. -/
theorem find?_le {p q : Float × Rating → Bool} {fs : List (Float × Rating)}
    (weaker : ∀ f ∈ fs, p f → q f) (sorted : fs.Pairwise fun f g => g.2 ≤ f.2) :
    ((fs.find? p).map (·.2)).getD d ≤ ((fs.find? q).map (·.2)).getD d := by
  induction fs with
  | nil => exact Nat.le_refl _
  | cons f fs ih =>
      obtain ⟨head, tail⟩ := List.pairwise_cons.1 sorted
      obtain ⟨first, rest⟩ := List.forall_mem_cons.1 weaker
      cases hq : q f with
      | false =>
          have hp : p f = false := Bool.eq_false_iff.2 fun hp => Bool.eq_false_iff.1 hq (first hp)
          rw [List.find?_cons_of_neg (by simp [hp]), List.find?_cons_of_neg (by simp [hq])]
          exact ih rest tail
      | true =>
          rw [List.find?_cons_of_pos hq]
          cases hp : p f with
          | true =>
              rw [List.find?_cons_of_pos hp]
              exact Nat.le_refl _
          | false =>
              rw [List.find?_cons_of_neg (by simp [hp])]
              cases found : fs.find? p with
              | none => exact Nat.zero_le _
              | some g => exact head g (List.mem_of_find?_eq_some found)

theorem floors_sorted : floors.Pairwise fun f g => g.2 ≤ f.2 := by decide

theorem ofScore_le_ofScore {x y : Float} (h : x ≤ y) : ofScore x ≤ ofScore y := by
  refine find?_le (fun f _ hf => ?_) floors_sorted
  rw [decide_eq_true_eq] at hf ⊢
  exact le_of_le_of_le hf h

end Rating

/-- More income and less debt never cost a client anything, where both scores are numbers. -/
theorem score_le_of_income_le (p : Policy) (c : Client) (income debt : Float)
    (accepted : p.violations = []) (valid : c.isValid)
    (valid' : { c with income := income, debt := debt : Client }.isValid)
    (more : c.income ≤ income) (less : debt ≤ c.debt)
    (number : (score p.engine p.weightTable c).isNaN = false)
    (number' : (score p.engine p.weightTable
      { c with income := income, debt := debt }).isNaN = false) :
    score p.engine p.weightTable c ≤
        score p.engine p.weightTable { c with income := income, debt := debt } ∧
      Rating.ofScore (score p.engine p.weightTable c) ≤
        Rating.ofScore
          (score p.engine p.weightTable { c with income := income, debt := debt }) := by
  have score_eq (d : Client) : score p.engine p.weightTable d =
      clampUnit (explain p.engine p.weightTable d).unclamped := rfl
  rw [score_eq, isNaN_clampUnit] at number number'
  have order := clampUnit_le_clampUnit (unclamped_le accepted valid more
    (Client.nonneg_of_isValid valid').2 less number number')
  exact ⟨order, Rating.ofScore_le_ofScore order⟩

def halvingPolicy : Policy where
  weights := none
  countries := some (.ofList [("AT", 0.5)])

/-- An infinite debt against an income just below the threshold. -/
def indebtedClient : Client := { steadyClient with income := 29999.0, debt := 1.0 / 0.0 }

/-- With an infinite income the debt ratio is no number, and still nothing is lost. -/
theorem score_le_of_infinite_income :
    halvingPolicy.violations = [] ∧ indebtedClient.isValid ∧
      score halvingPolicy.engine halvingPolicy.weightTable indebtedClient ≤
        score halvingPolicy.engine halvingPolicy.weightTable
          { indebtedClient with income := 1.0 / 0.0, debt := 1.0 / 0.0 } ∧
      Rating.ofScore (score halvingPolicy.engine halvingPolicy.weightTable indebtedClient) ≤
        Rating.ofScore (score halvingPolicy.engine halvingPolicy.weightTable
          { indebtedClient with income := 1.0 / 0.0, debt := 1.0 / 0.0 }) := by
  have accepted : halvingPolicy.violations = [] := List.isEmpty_iff.1 (by decide +kernel)
  have valid : indebtedClient.isValid := by decide +kernel
  refine ⟨accepted, valid, ?_⟩
  exact score_le_of_income_le halvingPolicy indebtedClient (1.0 / 0.0) (1.0 / 0.0) accepted valid
    (by decide +kernel) (by decide +kernel) (by decide +kernel) (by decide +kernel)
    (by decide +kernel)

end CreditRating

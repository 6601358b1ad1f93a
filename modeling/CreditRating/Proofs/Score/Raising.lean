import CreditRating.Proofs.Score.Order

/-!
Scores under two policies. A policy with no lower weights and no lower multiplier
gives a client no lower score. Larger multipliers push a negative total further
down, which only the clamp makes up for.
-/

namespace CreditRating

open Binary

namespace Factor

theorem ageShare?_bounds {age : Int32} {s : Float} (h : s ∈ ageShare? age) :
    s.isFinite ∧ 0 ≤ quantity s ∧ |quantity s| ≤ 1 := by
  rw [ageShare?_eq] at h
  split at h
  · next counts =>
      obtain rfl := Option.some.inj h
      obtain ⟨near, le⟩ := ageShare_spec counts.1 counts.2
      have least : (1 / 3 : ℚ) ≤ 1 - |45 - (age.toInt : ℚ)| / 45 := by
        have far : |45 - (age.toInt : ℚ)| ≤ 30 := by
          rw [abs_le]
          constructor <;> linarith [(by exact_mod_cast counts.1 : (18 : ℚ) ≤ age.toInt),
            (by exact_mod_cast counts.2 : (age.toInt : ℚ) ≤ 75)]
        linarith
      have below := (abs_le.1 near.dist).1
      have slips : (2 : ℕ) * slip ≤ 1 / 3 := by norm_num [slip]
      exact ⟨near.isFinite, by linarith, le⟩
  · cases h

end Factor

namespace Finding

variable {w v : Float}

theorem add_onlyIf_le_add {x y : Float} (hxy : x ≤ y) (b : Bool) (hwv : w ≤ v) (hw : w.isFinite)
    (hv : v.isFinite) : add x (onlyIf b w) ≤ add y (onlyIf b v) := by
  cases b with
  | true => exact add_le_add_of_isFinite hxy hwv hw hv
  | false => exact hxy

theorem favors_age_of_le (age : Int32) (hwv : w ≤ v) (hw : w.isFinite) (hv : v.isFinite) :
    Favors (.age age ((Factor.ageShare? age).map fun share => (share, w)))
      (.age age ((Factor.ageShare? age).map fun share => (share, v))) := by
  intro x y hxy
  cases hs : Factor.ageShare? age with
  | none => exact hxy
  | some s =>
      obtain ⟨finite, pos, le⟩ := Factor.ageShare?_bounds hs
      have lower := isFinite_mul hw finite le
      have upper := isFinite_mul hv finite le
      have order : w * s ≤ v * s :=
        mul_le_mul_of_nonneg hwv finite pos (isNaN_of_isFinite lower) (isNaN_of_isFinite upper)
      exact add_le_add_of_isFinite hxy order lower upper

theorem favors_debt_of_le (ratio : Float) (tier : Factor.DebtTier) (hwv : w ≤ v)
    (hw : w.isFinite) (hv : v.isFinite) : Favors (.debt ratio tier w) (.debt ratio tier v) := by
  intro x y hxy
  have lower := isFinite_mul_share hw tier
  have upper := isFinite_mul_share hv tier
  have order : w * tier.share ≤ v * tier.share :=
    mul_le_mul_of_nonneg hwv (Factor.isFinite_share tier) (Factor.share_bounds tier).1
      (isNaN_of_isFinite lower) (isNaN_of_isFinite upper)
  exact add_le_add_of_isFinite hxy order lower upper

end Finding

/-- The weights of the first table are nowhere above those of the second. -/
def WeightsLe (ws vs : Table) : Prop :=
  ∀ factor ∈ factorNames, Weights.weight ws factor ≤ Weights.weight vs factor

/-- Larger weights leave no lower total before the step of the country. -/
theorem ownTotal_le_of_weightsLe (e : Engine) {ws vs : Table} (c : Client) (h : WeightsLe ws vs)
    (hw : ∀ factor, (Weights.weight ws factor).isFinite)
    (hv : ∀ factor, (Weights.weight vs factor).isFinite) : ownTotal e ws c ≤ ownTotal e vs c := by
  have bounded := isBounded_findings (e := e) hw c
  simp only [findings, onlyIf_debtDeduction, onlyIf_ageDeduction, List.forall_mem_append] at bounded
  obtain ⟨⟨⟨-, highDebt⟩, deductedAge⟩, country⟩ := bounded
  have label (factor : String) (listed : factor ∈ factorNames) (b : Bool) {x y : Float}
      (hxy : x ≤ y) : Finding.add x (onlyIf b (Weights.weight ws factor)) ≤
        Finding.add y (onlyIf b (Weights.weight vs factor)) :=
    Finding.add_onlyIf_le_add hxy b (h factor listed) (hw factor) (hv factor)
  simp only [ownTotal, total, findings, onlyIf_debtDeduction, onlyIf_ageDeduction,
    List.foldl_append]
  apply Finding.foldl_le_foldl_self country
  apply Finding.foldl_le_foldl_self deductedAge
  apply Finding.foldl_le_foldl_self highDebt
  apply Finding.foldl_le_foldl _ (le_self (by decide))
  refine .cons (Finding.favors_age_of_le c.age (h "age" (by decide)) (hw "age") (hv "age"))
    (.cons ?_ (.cons ?_ (.cons ?_ (.cons ?_ .nil))))
  · exact fun x y => label "income" (by decide) _
  · exact fun x y => label "employment" (by decide) _
  · exact fun x y => label "industry" (by decide) _
  · exact Finding.favors_debt_of_le _ _ (h "debt" (by decide)) (hw "debt") (hv "debt")

theorem Engine.withoutCountries_withMultipliers (e : Engine) (pairs : List (String × Float)) :
    (e.withMultipliers pairs).withoutCountries = e.withoutCountries := by
  induction pairs generalizing e with
  | nil => rfl
  | cons p ps ih => exact ih (e.withMultiplier p.1 p.2)

theorem Policy.withoutCountries_engine (p : Policy) :
    p.engine.withoutCountries = Engine.standard.withoutCountries :=
  Engine.withoutCountries_withMultipliers Engine.standard (entriesOf p.countries)

/-- The multiplier of a country. One that the engine does not know counts as 1. -/
def Engine.multiplier (e : Engine) (country : String) : Float :=
  (e.multiplier? country).getD 1.0

section

variable {p q : Policy} {c : Client}

theorem Policy.isAllowed_engineMultiplier (accepted : p.violations = []) (country : String) :
    isAllowed (p.engine.multiplier country) := by
  rw [Engine.multiplier]
  cases hm : p.engine.multiplier? country with
  | none => decide
  | some m => exact p.isAllowed_multiplier accepted hm

/-- A country without a multiplier leaves the total as it is, which is its rounded product
with 1. -/
theorem quantity_unclamped (accepted : p.violations = [])
    (finite : (ownTotal p.engine p.weightTable c).isFinite) :
    (explain p.engine p.weightTable c).unclamped.isNaN = false ∧
      quantity (explain p.engine p.weightTable c).unclamped =
        bounded (quantity (ownTotal p.engine p.weightTable c) *
          quantity (p.engine.multiplier c.country)) := by
  rw [unclamped_eq, Engine.multiplier]
  cases hm : p.engine.multiplier? c.country with
  | none =>
      refine ⟨isNaN_of_isFinite finite, ?_⟩
      rw [Option.getD_none, Factor.quantity_one, mul_one, bounded_quantity]
  | some m =>
      have hf := p.isFinite_multiplier accepted hm
      exact ⟨isNaN_mul_of_isFinite finite hf, quantity_mul finite hf⟩

/-- Below zero the order is lost, but nothing below zero is left by the clamp. -/
theorem clamp_bounded_mul_le {s t m n : ℚ} (total : s ≤ t) (factor : m ≤ n) (pos : 0 ≤ m) :
    max 0 (min 1 (bounded (s * m))) ≤ max 0 (min 1 (bounded (t * n))) := by
  obtain neg | nonneg := lt_or_ge s 0
  · have low : bounded (s * m) ≤ 0 := by
      rw [← bounded_zero]
      exact bounded_mono (mul_nonpos_of_nonpos_of_nonneg neg.le pos)
    rw [max_eq_left (min_le_of_right_le low)]
    exact le_max_left 0 _
  · have product : s * m ≤ t * n := mul_le_mul total factor pos (nonneg.trans total)
    exact max_le_max le_rfl (min_le_min le_rfl (bounded_mono product))

end

/-- Raising weights and the multiplier of its country never costs a client anything, where
both totals before the step of the country are finite. -/
theorem score_le_of_weightsLe (p q : Policy) (c : Client) (accepted : p.violations = [])
    (accepted' : q.violations = []) (weights : WeightsLe p.weightTable q.weightTable)
    (multiplier : p.engine.multiplier c.country ≤ q.engine.multiplier c.country)
    (finite : (ownTotal p.engine p.weightTable c).isFinite)
    (finite' : (ownTotal q.engine q.weightTable c).isFinite) :
    score p.engine p.weightTable c ≤ score q.engine q.weightTable c ∧
      Rating.ofScore (score p.engine p.weightTable c) ≤
        Rating.ofScore (score q.engine q.weightTable c) := by
  have totals : ownTotal p.engine p.weightTable c ≤ ownTotal q.engine q.weightTable c := by
    have order := ownTotal_le_of_weightsLe q.engine c weights (p.isFinite_weight accepted)
      (q.isFinite_weight accepted')
    have same : ownTotal p.engine p.weightTable c = ownTotal q.engine p.weightTable c := by
      rw [ownTotal, ownTotal, p.withoutCountries_engine, q.withoutCountries_engine]
    exact same ▸ order
  obtain ⟨number, product⟩ := quantity_unclamped accepted finite
  obtain ⟨number', product'⟩ := quantity_unclamped accepted' finite'
  have pos := quantity_nonneg_of_isAllowed (p.isAllowed_engineMultiplier accepted c.country)
  have order : score p.engine p.weightTable c ≤ score q.engine q.weightTable c := by
    change clampUnit (explain p.engine p.weightTable c).unclamped ≤
      clampUnit (explain q.engine q.weightTable c).unclamped
    rw [le_iff ((isNaN_clampUnit _).trans number) ((isNaN_clampUnit _).trans number'),
      quantity_clampUnit number, quantity_clampUnit number', product, product']
    exact clamp_bounded_mul_le (quantity_le totals) (quantity_le multiplier) pos
  exact ⟨order, Rating.ofScore_le_ofScore order⟩

def modestPolicy : Policy where
  weights := some (.ofList [("income", 0.2)])
  countries := none

def generousPolicy : Policy where
  weights := some (.ofList [("income", 0.3), ("debt", 0.1)])
  countries := some (.ofList [("FR", 1.5)])

def deductedClient : Client where
  __ := steadyClient
  country := "FR"
  age := 17
  income := 1000.0
  employment := "none"
  debt := 60000.0

/-- The larger multiplier makes a negative total worse, and still the score is no lower. -/
theorem score_le_of_deductedTotal :
    modestPolicy.violations = [] ∧ generousPolicy.violations = [] ∧ deductedClient.isValid ∧
      (explain generousPolicy.engine generousPolicy.weightTable deductedClient).unclamped <
        (explain modestPolicy.engine modestPolicy.weightTable deductedClient).unclamped ∧
      score modestPolicy.engine modestPolicy.weightTable deductedClient ≤
        score generousPolicy.engine generousPolicy.weightTable deductedClient ∧
      Rating.ofScore (score modestPolicy.engine modestPolicy.weightTable deductedClient) ≤
        Rating.ofScore (score generousPolicy.engine generousPolicy.weightTable deductedClient) := by
  have accepted : modestPolicy.violations = [] := List.isEmpty_iff.1 (by decide +kernel)
  have accepted' : generousPolicy.violations = [] := List.isEmpty_iff.1 (by decide +kernel)
  have weights : WeightsLe modestPolicy.weightTable generousPolicy.weightTable := by
    unfold WeightsLe
    decide +kernel
  refine ⟨accepted, accepted', by decide +kernel, by decide +kernel, ?_⟩
  exact score_le_of_weightsLe modestPolicy generousPolicy deductedClient accepted accepted' weights
    (by decide +kernel) (by decide +kernel) (by decide +kernel)

end CreditRating

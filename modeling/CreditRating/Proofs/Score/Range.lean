import CreditRating.Batch
import CreditRating.Proofs.Score.Clamp
import CreditRating.Proofs.Table

/-!
The range of a score. Under a policy that breaks no rule every finding moves the
total by a finite number, so the total stays a number up to the step of the
country. That step alone can lose it, and only where the total is infinite.
-/

namespace CreditRating

open Binary

theorem isFinite_of_isAllowed {x : Float} (h : isAllowed x) : x.isFinite := by
  rw [isAllowed, Bool.and_eq_true] at h
  exact h.1

theorem Engine.mem_withMultipliers {e : Engine} {pairs : List (String × Float)}
    {m : String × Float} (h : m ∈ (e.withMultipliers pairs).multipliers.entries) :
    m ∈ e.multipliers.entries ∨ m ∈ pairs := by
  induction pairs generalizing e with
  | nil => exact .inl h
  | cons p ps ih =>
      obtain h | h := ih h
      · obtain rfl | h := mem_insertByName h
        · exact .inr (.head ps)
        · exact .inl h
      · exact .inr (.tail p h)

theorem isAllowed_standardWeights : ∀ e ∈ Weights.standard.entries, isAllowed e.2 := by
  decide

theorem isAllowed_standardMultipliers :
    ∀ e ∈ Engine.standard.multipliers.entries, isAllowed e.2 := by
  decide

namespace Policy

variable {p : Policy} (h : p.violations = [])
include h

theorem isAllowed_of_mem_weights {e : String × Float} (he : e ∈ entriesOf p.weights) :
    isAllowed e.2 := by
  have hw := List.flatMap_eq_nil_iff.1 (List.append_eq_nil_iff.1 h).1 e he
  refine Decidable.byContradiction fun hn => ?_
  simp [weightViolations, hn] at hw

theorem isAllowed_of_mem_countries {e : String × Float} (he : e ∈ entriesOf p.countries) :
    isAllowed e.2 := by
  have hc := List.flatMap_eq_nil_iff.1 (List.append_eq_nil_iff.1 h).2 e he
  refine Decidable.byContradiction fun hn => ?_
  simp [countryViolations, hn] at hc

/-- The weight of every factor is one that a policy may set. -/
theorem isAllowed_weight (factor : String) : isAllowed (Weights.weight p.weightTable factor) := by
  rw [Weights.weight]
  cases hw : p.weightTable.get? factor with
  | none => decide
  | some w =>
      have hm := Table.get?_eq_some_iff.1 hw
      rw [weightTable] at hm
      cases ht : p.weights with
      | none =>
          rw [ht, Option.getD_none] at hm
          exact isAllowed_standardWeights (factor, w) hm
      | some t =>
          rw [ht, Option.getD_some] at hm
          refine isAllowed_of_mem_weights h (e := (factor, w)) ?_
          rwa [ht]

/-- So is the multiplier of every country. -/
theorem isAllowed_multiplier {country : String} {m : Float}
    (hm : p.engine.multiplier? country = some m) : isAllowed m := by
  rw [Engine.multiplier?, engine] at hm
  obtain hm | hm := Engine.mem_withMultipliers (Table.get?_eq_some_iff.1 hm)
  · exact isAllowed_standardMultipliers (country, m) hm
  · exact isAllowed_of_mem_countries h (e := (country, m)) hm

theorem isFinite_weight (factor : String) : (Weights.weight p.weightTable factor).isFinite :=
  isFinite_of_isAllowed (isAllowed_weight h factor)

theorem isFinite_multiplier {country : String} {m : Float}
    (hm : p.engine.multiplier? country = some m) : m.isFinite :=
  isFinite_of_isAllowed (isAllowed_multiplier h hm)

end Policy

namespace Finding

/-- What the finding adds to the total or takes from it is finite, and a deduction takes away. -/
def IsBounded : Finding → Prop
  | age _ earned => ∀ e ∈ earned, (e.2 * e.1).isFinite
  | income _ earned | employment _ earned | industry _ earned => ∀ w ∈ earned, w.isFinite
  | debt _ tier weight => (weight * tier.share).isFinite
  | highDebt _ amount | deductedAge _ amount => amount.isFinite ∧ 0 ≤ quantity amount
  | country _ _ => False

theorem isNaN_add {x : Float} (hx : x.isNaN = false) {earned : Option Float}
    (h : ∀ w ∈ earned, w.isFinite) : (add x earned).isNaN = false := by
  cases earned with
  | none => exact hx
  | some w => exact isNaN_add_of_isFinite hx (h w rfl)

theorem IsBounded.isNaN_apply {f : Finding} (h : f.IsBounded) {x : Float}
    (hx : x.isNaN = false) : (f.apply x).isNaN = false := by
  cases f with
  | age n earned =>
      refine isNaN_add hx fun w hw => ?_
      obtain ⟨e, he, rfl⟩ := Option.map_eq_some_iff.1 hw
      exact h e he
  | income _ _ | employment _ _ | industry _ _ => exact isNaN_add hx h
  | debt _ _ _ => exact isNaN_add_of_isFinite hx h
  | highDebt _ _ | deductedAge _ _ => exact isNaN_sub_of_isFinite hx h.1
  | country _ _ => exact h.elim

theorem isNaN_foldl {fs : List Finding} (h : ∀ f ∈ fs, f.IsBounded) {x : Float}
    (hx : x.isNaN = false) : (fs.foldl apply x).isNaN = false := by
  induction fs generalizing x with
  | nil => exact hx
  | cons f fs ih =>
      exact ih (fun g hg => h g (.tail f hg)) ((h f (.head fs)).isNaN_apply hx)

end Finding

def Engine.withoutCountries (e : Engine) : Engine := { e with multipliers := ∅ }

theorem findings_eq (e : Engine) (weights : Table) (c : Client) :
    findings e weights c = findings e.withoutCountries weights c ++
      ((e.multiplier? c.country).map (.country c.country)).toList := by
  simp only [findings, Engine.withoutCountries, Engine.isStable, Engine.isSafe]
  exact congrArg (· ++ _) (List.append_nil _).symm

/-- The total before the step of the country. -/
def ownTotal (e : Engine) (weights : Table) (c : Client) : Float :=
  total (findings e.withoutCountries weights c)

/-- The country has the last step, if the engine knows it. -/
theorem unclamped_eq (e : Engine) (weights : Table) (c : Client) :
    (explain e weights c).unclamped =
      match e.multiplier? c.country with
      | some m => ownTotal e weights c * m
      | none => ownTotal e weights c := by
  simp only [explain, total, ownTotal, findings_eq e, List.foldl_append]
  cases e.multiplier? c.country <;> rfl

/-- A finite number times at most 1 in size is finite. -/
theorem isFinite_mul {x y : Float} (hx : x.isFinite) (hy : y.isFinite) (h : |quantity y| ≤ 1) :
    (x * y).isFinite := by
  have hle : |quantity x * quantity y| ≤ |quantity x| := by
    rw [abs_mul]
    exact mul_le_of_le_one_right (abs_nonneg _) h
  have hb : |bounded (quantity x * quantity y)| ≤ |quantity x| := by
    obtain ⟨low, high⟩ := abs_le.1 hle
    have hq : bounded |quantity x| = |quantity x| := by
      rw [← quantity_abs]
      exact (fits_unpacked x.abs).bounded_value
    rw [abs_le, ← hq, ← bounded_neg]
    exact ⟨bounded_mono low, bounded_mono high⟩
  rw [isFinite_iff (isNaN_mul_of_isFinite hx hy), quantity_mul hx hy]
  exact hb.trans_lt (abs_quantity_lt hx)

theorem isFinite_mul_share {w : Float} (hw : w.isFinite) (t : Factor.DebtTier) :
    (w * t.share).isFinite :=
  isFinite_mul hw (Factor.isFinite_share t) (Factor.share_bounds t).2

theorem eq_of_mem_onlyIf {α : Type} {b : Bool} {x y : α} (h : y ∈ onlyIf b x) : y = x := by
  rw [onlyIf] at h
  split at h
  · exact (Option.some.inj h).symm
  · cases h

/-- With finite weights all findings before the country are bounded. -/
theorem isBounded_findings {e : Engine} {weights : Table}
    (h : ∀ factor, (Weights.weight weights factor).isFinite) (c : Client) :
    ∀ f ∈ findings e.withoutCountries weights c, f.IsBounded := by
  have earned {b : Bool} {factor : String} :
      ∀ w ∈ onlyIf b (Weights.weight weights factor), w.isFinite :=
    fun w hw => eq_of_mem_onlyIf hw ▸ h factor
  intro f hf
  simp only [findings, onlyIf_debtDeduction, onlyIf_ageDeduction, List.mem_append, List.mem_cons,
    List.not_mem_nil, or_false] at hf
  obtain ((hf | hf) | hf) | hf := hf
  · obtain rfl | rfl | rfl | rfl | rfl := hf
    · intro p hp
      obtain ⟨s, hs, rfl⟩ := Option.map_eq_some_iff.1 hp
      rw [Factor.ageShare?_eq] at hs
      split at hs
      · next counts =>
          obtain rfl := Option.some.inj hs
          obtain ⟨near, le⟩ := Factor.ageShare_spec counts.1 counts.2
          exact isFinite_mul (h "age") near.isFinite le
      · cases hs
    · exact earned
    · exact earned
    · exact earned
    · exact isFinite_mul_share (h "debt") _
  · rw [eq_of_mem_onlyIf (Option.mem_toList.1 hf)]
    exact ⟨by decide, by decide +kernel⟩
  · rw [eq_of_mem_onlyIf (Option.mem_toList.1 hf)]
    exact ⟨by decide, by decide +kernel⟩
  · cases hf

/-- The findings give an infinite total and the multiplier of the country is a zero. -/
def LosesTotal (e : Engine) (weights : Table) (c : Client) : Prop :=
  (ownTotal e weights c).isFinite = false ∧
    ∃ m, e.multiplier? c.country = some m ∧ m == 0.0

theorem isNaN_ownTotal {p : Policy} (h : p.violations = []) (c : Client) :
    (ownTotal p.engine p.weightTable c).isNaN = false :=
  Finding.isNaN_foldl (isBounded_findings (p.isFinite_weight h) c)
    (isNaN_of_isFinite Factor.isFinite_zero)

/-- The total is lost only where an infinite one meets the multiplier 0. -/
theorem isNaN_unclamped_iff {p : Policy} (h : p.violations = []) (c : Client) :
    (explain p.engine p.weightTable c).unclamped.isNaN ↔
      LosesTotal p.engine p.weightTable c := by
  have hn := isNaN_ownTotal h c
  rw [unclamped_eq, LosesTotal]
  cases hm : p.engine.multiplier? c.country with
  | none =>
      refine iff_of_false ?_ ?_
      · change ¬ (ownTotal p.engine p.weightTable c).isNaN = true
        rw [hn]
        exact Bool.false_ne_true
      · rintro ⟨-, m, h, -⟩
        cases h
  | some m =>
      have hf := p.isFinite_multiplier h hm
      have hz : (m == 0.0) = true ↔ quantity m = 0 := by
        rw [beq_iff (isNaN_of_isFinite hf) (isNaN_of_isFinite Factor.isFinite_zero),
          Factor.quantity_zero]
      simp only [isNaN_mul_iff hn hf, Option.some.injEq, exists_eq_left', hz]

/-- A policy without violations scores every client in [0, 1], but for the clients whose
infinite total meets a multiplier of zero. What those get is no number. -/
theorem score_mem_unit_iff (p : Policy) (c : Client) (h : p.violations = []) :
    (0.0 ≤ score p.engine p.weightTable c ∧ score p.engine p.weightTable c ≤ 1.0 ↔
      ¬ LosesTotal p.engine p.weightTable c) ∧
    ((score p.engine p.weightTable c).isNaN ↔ LosesTotal p.engine p.weightTable c) := by
  have hs : score p.engine p.weightTable c =
      clampUnit (explain p.engine p.weightTable c).unclamped := rfl
  rw [hs, clampUnit_mem_iff, isNaN_clampUnit, ← isNaN_unclamped_iff h, Bool.not_eq_true]
  exact ⟨Iff.rfl, Iff.rfl⟩

/-- Two weights whose sum is out of the range, and a country that counts for nothing. -/
def hugeWeights : Policy where
  weights := some (.ofList [("income", 1.7e308), ("employment", 1.7e308)])
  countries := some (.ofList [("AT", 0.0)])

def steadyClient : Client where
  id := "C001"
  name := "Test Client"
  country := "AT"
  clientType := "retail"
  age := 45
  income := 100000.0
  employment := "permanent"
  industry := "finance"
  debt := 2000.0
  score := 0.0

theorem isNaN_score_hugeWeights :
    hugeWeights.violations = [] ∧ steadyClient.isValid ∧
      (score hugeWeights.engine hugeWeights.weightTable steadyClient).isNaN := by
  have allowed : hugeWeights.violations = [] := List.isEmpty_iff.1 (by decide +kernel)
  have infinite : (ownTotal hugeWeights.engine hugeWeights.weightTable steadyClient).isFinite =
      false := by decide +kernel
  have multiplier : hugeWeights.engine.multiplier? "AT" = some 0.0 := by decide +kernel
  refine ⟨allowed, by decide +kernel, ?_⟩
  exact (score_mem_unit_iff hugeWeights steadyClient allowed).2.2
    ⟨infinite, 0.0, multiplier, by decide +kernel⟩

end CreditRating

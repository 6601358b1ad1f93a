import CreditRating.Proofs.Score.Raising

/-!
The steps of a score as an account of it. Each step takes up the total where the one before
has left it, so nothing moves the total that is not in the list. Which steps there are depends
on the client and on the countries that the engine knows.
-/

namespace CreditRating

open Binary

section

variable (x : Float) (fs : List Finding)

theorem map_finding_stepsFrom : (stepsFrom x fs).map (·.finding) = fs := by
  induction fs generalizing x with
  | nil => rfl
  | cons f fs ih => rw [stepsFrom, List.map_cons, ih]

/-- Each step begins where the one before has ended. -/
theorem isChain_stepsFrom : (stepsFrom x fs).IsChain fun s t => t.before = s.after := by
  induction fs generalizing x with
  | nil => exact .nil
  | cons f fs ih =>
      cases fs with
      | nil => exact .singleton _
      | cons g gs => exact .cons_cons rfl (ih (f.apply x))

/-- The last step leaves the total of all findings. -/
theorem getLast?_stepsFrom (f : Finding) :
    (stepsFrom x (f :: fs)).getLast?.map (·.after) =
      some ((f :: fs).foldl Finding.apply x) := by
  induction fs generalizing x f with
  | nil => rfl
  | cons g gs ih =>
      rw [stepsFrom, stepsFrom, List.getLast?_cons_cons]
      exact ih (f.apply x) g

theorem stepsFrom_append (gs : List Finding) :
    stepsFrom x (fs ++ gs) = stepsFrom x fs ++ stepsFrom (fs.foldl Finding.apply x) gs := by
  induction fs generalizing x with
  | nil => rfl
  | cons f fs ih =>
      rw [List.cons_append, stepsFrom, ih, stepsFrom, List.cons_append, List.foldl_cons]

theorem take_stepsFrom (n : ℕ) : (stepsFrom x fs).take n = stepsFrom x (fs.take n) := by
  induction fs generalizing x n with
  | nil => simp [stepsFrom]
  | cons f fs ih =>
      cases n with
      | zero => rfl
      | succ n => rw [stepsFrom, List.take_succ_cons, ih, List.take_succ_cons, stepsFrom]

variable {x fs}

/-- What every finding keeps of the total and brings about for its own step holds of all steps. -/
theorem forall_mem_stepsFrom {P : Float → Prop} {Q : Step → Prop}
    (step : ∀ f ∈ fs, ∀ y, P y → P (f.apply y) ∧ Q ⟨f, y, f.apply y⟩) (hx : P x) :
    ∀ s ∈ stepsFrom x fs, Q s := by
  induction fs generalizing x with
  | nil => exact fun s hs => nomatch hs
  | cons f fs ih =>
      obtain ⟨next, first⟩ := step f (.head fs) x hx
      rw [stepsFrom, List.forall_mem_cons]
      exact ⟨first, ih (fun g hg => step g (.tail f hg)) next⟩

end

namespace Finding

def Raises (f : Finding) : Prop := ∀ x : Float, x.isNaN = false → x ≤ f.apply x

/-- Steps that raise the total never leave a total that is no number. -/
theorem le_of_mem_stepsFrom {fs : List Finding} (h : ∀ f ∈ fs, f.Raises) {x : Float}
    (hx : x.isNaN = false) : ∀ s ∈ stepsFrom x fs, s.before ≤ s.after := by
  refine forall_mem_stepsFrom (P := fun y => y.isNaN = false) (fun f hf y hy => ?_) hx
  have order := h f hf y hy
  exact ⟨(isNaN_of_le order).2, order⟩

section

variable {w : Float} (finite : w.isFinite) (pos : 0 ≤ quantity w)
include finite pos

theorem le_add_onlyIf {x : Float} (hx : x.isNaN = false) (b : Bool) : x ≤ add x (onlyIf b w) := by
  cases b with
  | true => exact le_add_of_isFinite (le_self hx) finite pos
  | false => exact le_self hx

theorem le_add_share {x share : Float} (hx : x.isNaN = false) (hs : share.isFinite)
    (share_pos : 0 ≤ quantity share) (share_le : |quantity share| ≤ 1) : x ≤ x + w * share := by
  refine le_add_of_isFinite (le_self hx) (isFinite_mul finite hs share_le) ?_
  rw [quantity_mul finite hs, ← bounded_zero]
  exact bounded_mono (mul_nonneg pos share_pos)

theorem raises_age (age : Int32) :
    Raises (.age age ((Factor.ageShare? age).map fun share => (share, w))) := by
  intro x hx
  cases hs : Factor.ageShare? age with
  | none => exact le_self hx
  | some share =>
      obtain ⟨share_finite, share_pos, share_le⟩ := Factor.ageShare?_bounds hs
      exact le_add_share finite pos hx share_finite share_pos share_le

theorem raises_debt (ratio : Float) (tier : Factor.DebtTier) : Raises (.debt ratio tier w) := by
  intro x hx
  obtain ⟨share_pos, share_le⟩ := Factor.share_bounds tier
  exact le_add_share finite pos hx (Factor.isFinite_share tier) share_pos share_le

end

/-- A finding with the label of a deduction is one. -/
theorem apply_le_of_label {f : Finding} (bounded : f.IsBounded)
    (h : f.label ∈ ["High debt penalty", "Age penalty"]) {x : Float} (hx : x.isNaN = false) :
    f.apply x ≤ x := by
  cases f with
  | highDebt _ _ | deductedAge _ _ => exact sub_le_of_isFinite (le_self hx) bounded.1 bounded.2
  | age _ _ | income _ _ | employment _ _ | industry _ _ | debt _ _ _ | country _ _ =>
      simp [label] at h

end Finding

theorem map_label_onlyIf (b : Bool) (f : Finding) :
    (onlyIf b f).toList.map Finding.label = if b then [f.label] else [] := by
  cases b <;> rfl

/-- Which findings there are, by their labels. -/
theorem map_label_findings (e : Engine) (weights : Table) (c : Client) :
    (findings e weights c).map Finding.label =
      ["Age", "Income", "Employment", "Industry", "Debt"] ++
        (if 50000.0 < c.debt then ["High debt penalty"] else []) ++
        (if c.age.toInt < 21 ∨ 75 < c.age.toInt then ["Age penalty"] else []) ++
        (if (e.multiplier? c.country).isSome then ["Country"] else []) := by
  have country : ((e.multiplier? c.country).map (.country c.country)).toList.map Finding.label =
      if (e.multiplier? c.country).isSome then ["Country"] else [] := by
    cases e.multiplier? c.country <;> rfl
  simp only [findings, onlyIf_debtDeduction, onlyIf_ageDeduction, List.map_append,
    map_label_onlyIf, country, Factor.isDeductedAge_eq, Factor.isHighDebt, decide_eq_true_eq]
  rfl

section

variable {e : Engine} {weights : Table} {c : Client}

/-- The findings about the five factors raise the total if no weight is negative. -/
theorem raises_of_mem_take (finite : ∀ factor, (Weights.weight weights factor).isFinite)
    (pos : ∀ factor, 0 ≤ quantity (Weights.weight weights factor)) :
    ∀ f ∈ (findings e weights c).take 5, f.Raises := by
  have five : (findings e weights c).take 5 =
      [.age c.age ((Factor.ageShare? c.age).map fun share => (share, Weights.weight weights "age")),
        .income c.income (onlyIf (Factor.meetsIncome c.income) (Weights.weight weights "income")),
        .employment c.employment
          (onlyIf (e.isStable c.employment) (Weights.weight weights "employment")),
        .industry c.industry
          (onlyIf (e.isSafe c.industry) (Weights.weight weights "industry")),
        .debt c.debtRatio (.ofRatio c.debtRatio) (Weights.weight weights "debt")] := rfl
  intro f hf
  rw [five] at hf
  simp only [List.mem_cons, List.not_mem_nil, or_false] at hf
  obtain rfl | rfl | rfl | rfl | rfl := hf
  · exact Finding.raises_age (finite "age") (pos "age") c.age
  · exact fun x hx => Finding.le_add_onlyIf (finite "income") (pos "income") hx _
  · exact fun x hx => Finding.le_add_onlyIf (finite "employment") (pos "employment") hx _
  · exact fun x hx => Finding.le_add_onlyIf (finite "industry") (pos "industry") hx _
  · exact Finding.raises_debt (finite "debt") (pos "debt") _ _

/-- Deductions lower the total. Before the step of the country it is a number throughout. -/
theorem le_of_mem_deductions (finite : ∀ factor, (Weights.weight weights factor).isFinite) :
    ∀ s ∈ (explain e weights c).steps,
      s.finding.label ∈ ["High debt penalty", "Age penalty"] → s.after ≤ s.before := by
  have bounded := isBounded_findings (e := e) finite c
  have own : ∀ s ∈ stepsFrom 0.0 (findings e.withoutCountries weights c),
      s.finding.label ∈ ["High debt penalty", "Age penalty"] → s.after ≤ s.before := by
    refine forall_mem_stepsFrom (P := fun x => x.isNaN = false) (fun f hf x hx => ?_) (by decide)
    have own := bounded f hf
    exact ⟨own.isNaN_apply hx, fun deduction => Finding.apply_le_of_label own deduction hx⟩
  intro s hs
  rw [explain, findings_eq, stepsFrom_append, List.mem_append] at hs
  obtain hs | hs := hs
  · exact own s hs
  · cases hm : e.multiplier? c.country with
    | none =>
        rw [hm] at hs
        cases hs
    | some m =>
        rw [hm] at hs
        obtain rfl := List.mem_singleton.1 hs
        intro deduction
        simp [Finding.label] at deduction

end

/-- A score is accounted for step by step, without a gap between 0 and the unclamped total, which
is then brought into [0, 1]. The five factors always have a step, a deduction or the country only
where it applies. With sound weights the factors never lower the total, and the deductions never
raise it. -/
theorem explain_accounts (e : Engine) (weights : Table) (c : Client) :
    (explain e weights c).steps.map (·.finding.label) =
        ["Age", "Income", "Employment", "Industry", "Debt"] ++
          (if 50000.0 < c.debt then ["High debt penalty"] else []) ++
          (if c.age.toInt < 21 ∨ 75 < c.age.toInt then ["Age penalty"] else []) ++
          (if (e.multiplier? c.country).isSome then ["Country"] else []) ∧
      (explain e weights c).steps.head?.map (·.before) = some 0.0 ∧
      (explain e weights c).steps.IsChain (fun s t => t.before = s.after) ∧
      (explain e weights c).steps.getLast?.map (·.after) = some (explain e weights c).unclamped ∧
      ClampOf (explain e weights c).unclamped (score e weights c) ∧
      ((∀ factor, (Weights.weight weights factor).isFinite ∧
          0.0 ≤ Weights.weight weights factor) →
        (∀ s ∈ (explain e weights c).steps.take 5, s.before ≤ s.after) ∧
        ∀ s ∈ (explain e weights c).steps,
          s.finding.label ∈ ["High debt penalty", "Age penalty"] → s.after ≤ s.before) := by
  refine ⟨?_, rfl, isChain_stepsFrom _ _, getLast?_stepsFrom _ _ _, clampOf_clampUnit _,
    fun sound => ⟨?_, ?_⟩⟩
  · rw [← map_label_findings e weights c, ← map_finding_stepsFrom 0.0 (findings e weights c),
      List.map_map]
    rfl
  · have pos (factor : String) : 0 ≤ quantity (Weights.weight weights factor) := by
      have order := quantity_le (sound factor).2
      rwa [Factor.quantity_zero] at order
    rw [explain, take_stepsFrom]
    exact Finding.le_of_mem_stepsFrom (raises_of_mem_take (fun factor => (sound factor).1) pos)
      (by decide)
  · exact le_of_mem_deductions fun factor => (sound factor).1

def overdrawnClient : Client := { steadyClient with age := 17, debt := 60000.0 }

/-- All steps there can be, with a total that is infinite from the employment on and a score
of 1. -/
theorem explain_accounts_hugeWeights :
    ((explain Engine.standard hugeWeights.weightTable overdrawnClient).steps.map
        (·.finding.label) =
      ["Age", "Income", "Employment", "Industry", "Debt", "High debt penalty", "Age penalty",
        "Country"]) ∧
      (explain Engine.standard hugeWeights.weightTable overdrawnClient).unclamped.isFinite =
        false ∧
      score Engine.standard hugeWeights.weightTable overdrawnClient = 1.0 ∧
      (∀ s ∈ (explain Engine.standard hugeWeights.weightTable overdrawnClient).steps.take 5,
        s.before ≤ s.after) ∧
      ∀ s ∈ (explain Engine.standard hugeWeights.weightTable overdrawnClient).steps,
        s.finding.label ∈ ["High debt penalty", "Age penalty"] → s.after ≤ s.before := by
  have accepted : hugeWeights.violations = [] := List.isEmpty_iff.1 (by decide +kernel)
  have sound (factor : String) : (Weights.weight hugeWeights.weightTable factor).isFinite ∧
      0.0 ≤ Weights.weight hugeWeights.weightTable factor := by
    have allowed := hugeWeights.isAllowed_weight accepted factor
    have finite := isFinite_of_isAllowed allowed
    refine ⟨finite, ?_⟩
    rw [le_iff (by decide) (isNaN_of_isFinite finite), Factor.quantity_zero]
    exact quantity_nonneg_of_isAllowed allowed
  obtain ⟨labels, -, -, -, clamped, order⟩ :=
    explain_accounts Engine.standard hugeWeights.weightTable overdrawnClient
  refine ⟨labels.trans ?_, by decide +kernel, clamped.above (by decide +kernel), order sound⟩
  decide +kernel

end CreditRating

import CreditRating.Proofs.Score.Account

/-!
The score and the age. An age nearer to 45 on the same side has no smaller share, and it is
deducted only where the other one is. The range of ages that earn a share and the range without
a deduction have different ends, which matters for neither of the two.
-/

namespace CreditRating

open Binary

namespace Factor

variable {m n : ℤ}

theorem ageShare_le (hm : 18 ≤ m ∧ m ≤ 75) (hn : 18 ≤ n ∧ n ≤ 75)
    (nearer : |45 - n| ≤ |45 - m|) : ageShare m ≤ ageShare n := by
  obtain ⟨finite, far⟩ := quantity_ageDistance hm.1 hm.2
  obtain ⟨finite', near⟩ := quantity_ageDistance hn.1 hn.2
  have peak_pos : 0 < quantity peakAge := by
    rw [quantity_peakAge]
    norm_num
  have distance : (peakAge - Float.ofInt n).abs ≤ (peakAge - Float.ofInt m).abs := by
    rw [le_iff (isNaN_of_isFinite finite') (isNaN_of_isFinite finite), near, far]
    exact_mod_cast nearer
  have quotient : (peakAge - Float.ofInt n).abs / peakAge ≤
      (peakAge - Float.ofInt m).abs / peakAge :=
    div_le_div_of_isFinite distance (near ▸ abs_nonneg _) finite
      (le_self (isNaN_of_isFinite isFinite_peakAge)) peak_pos
  exact sub_le_sub_left_of_isFinite (isNaN_of_isFinite isFinite_one) quotient
    (quantity_ageQuotient hn.1 hn.2).1.isFinite (quantity_ageQuotient hm.1 hm.2).1.isFinite

/-- Between the other age and 45. -/
def Nearer (n m : ℤ) : Prop := m ≤ n ∧ n ≤ 45 ∨ 45 ≤ n ∧ n ≤ m

theorem nearer_iff (a b : Int32) :
    b ≤ a ∧ a ≤ 45 ∨ 45 ≤ a ∧ a ≤ b ↔ Nearer a.toInt b.toInt := by
  simp only [Int32.le_iff_toInt_le]
  rfl

theorem Nearer.counts (h : Nearer n m) (hm : 18 ≤ m ∧ m ≤ 75) : 18 ≤ n ∧ n ≤ 75 := by
  obtain h | h := h <;> omega

theorem Nearer.abs_le (h : Nearer n m) : |45 - n| ≤ |45 - m| := by
  obtain ⟨low, high⟩ | ⟨low, high⟩ := h
  · rw [abs_of_nonneg (by omega), abs_of_nonneg (by omega)]
    omega
  · rw [abs_of_nonpos (by omega), abs_of_nonpos (by omega)]
    omega

/-- An age that is deducted stays so further away from 45. -/
theorem isDeductedAge_of_nearer {a b : Int32} (h : Nearer a.toInt b.toInt)
    (ha : isDeductedAge a) : isDeductedAge b := by
  rw [isDeductedAge_eq, decide_eq_true_eq] at ha ⊢
  obtain h | h := h <;> omega

end Factor

/-- The nearer age may earn a share where the other one earns none. -/
theorem Finding.favors_age {w : Float} (finite : w.isFinite) (pos : 0 ≤ quantity w) {a b : Int32}
    (h : Factor.Nearer a.toInt b.toInt) :
    Favors (.age b ((Factor.ageShare? b).map fun share => (share, w)))
      (.age a ((Factor.ageShare? a).map fun share => (share, w))) := by
  intro x y hxy
  by_cases hb : 18 ≤ b.toInt ∧ b.toInt ≤ 75
  · have ha := h.counts hb
    obtain ⟨near, le⟩ := Factor.ageShare_spec hb.1 hb.2
    obtain ⟨near', le'⟩ := Factor.ageShare_spec ha.1 ha.2
    have share := Factor.ageShare_le hb ha h.abs_le
    simp only [Factor.ageShare?_eq, if_pos hb, if_pos ha]
    exact add_le_add_of_isFinite hxy
      (mul_le_mul_left_of_isFinite finite pos share near.isFinite near'.isFinite)
      (isFinite_mul finite near.isFinite le) (isFinite_mul finite near'.isFinite le')
  · have none : Factor.ageShare? b = none := by rw [Factor.ageShare?_eq, if_neg hb]
    rw [none]
    exact le_of_le_of_le hxy (raises_age finite pos a y (isNaN_of_le hxy).2)

theorem Finding.foldl_deductedAge_le {a b : Int32} (h : Factor.Nearer a.toInt b.toInt)
    {x y : Float} (hxy : x ≤ y) :
    (onlyIf (Factor.isDeductedAge b)
        (deductedAge b Factor.ageDeductionAmount)).toList.foldl apply x ≤
      (onlyIf (Factor.isDeductedAge a)
        (deductedAge a Factor.ageDeductionAmount)).toList.foldl apply y :=
  foldl_deduction_le Factor.ageDeductionAmount (by decide) (by decide +kernel)
    (fun _ => rfl) (fun _ => rfl) (Factor.isDeductedAge_of_nearer h) hxy

section

variable {p : Policy} (accepted : p.violations = []) {c : Client} {age : Int32}
  (nearer : Factor.Nearer age.toInt c.age.toInt)
include accepted nearer

/-- The nearer age leaves no lower total before the step of the country. -/
theorem ownTotal_le_of_nearer :
    ownTotal p.engine p.weightTable c ≤
      ownTotal p.engine p.weightTable { c with age := age } := by
  have finite := p.isFinite_weight accepted
  have pos := quantity_nonneg_of_isAllowed (p.isAllowed_weight accepted "age")
  have bounded := isBounded_findings (e := p.engine) finite c
  simp only [findings, onlyIf_debtDeduction, onlyIf_ageDeduction, List.forall_mem_append,
    List.forall_mem_cons] at bounded
  obtain ⟨⟨⟨⟨-, income, employment, industry, debt, -⟩, highDebt⟩, -⟩, country⟩ := bounded
  simp only [ownTotal, total, findings, onlyIf_debtDeduction, onlyIf_ageDeduction,
    List.foldl_append]
  apply Finding.foldl_le_foldl_self country
  apply Finding.foldl_deductedAge_le nearer
  apply Finding.foldl_le_foldl_self highDebt
  apply Finding.foldl_le_foldl _ (le_self (by decide))
  exact .cons (Finding.favors_age (finite "age") pos nearer) (.cons income.favors
    (.cons employment.favors (.cons industry.favors (.cons debt.favors .nil))))

end

/-- The score has one peak, which is at 45: of two ages on one side of it the nearer one has no
lower score, where both scores are numbers. -/
theorem score_le_of_age_nearer (p : Policy) (c : Client) (age : Int32)
    (accepted : p.violations = []) (nearer : c.age ≤ age ∧ age ≤ 45 ∨ 45 ≤ age ∧ age ≤ c.age)
    (number : (score p.engine p.weightTable c).isNaN = false)
    (number' : (score p.engine p.weightTable { c with age := age }).isNaN = false) :
    score p.engine p.weightTable c ≤ score p.engine p.weightTable { c with age := age } ∧
      Rating.ofScore (score p.engine p.weightTable c) ≤
        Rating.ofScore (score p.engine p.weightTable { c with age := age }) := by
  have score_eq (d : Client) : score p.engine p.weightTable d =
      clampUnit (explain p.engine p.weightTable d).unclamped := rfl
  rw [score_eq, isNaN_clampUnit] at number number'
  have totals := ownTotal_le_of_nearer accepted ((Factor.nearer_iff age c.age).1 nearer)
  have country : ({ c with age := age } : Client).country = c.country := rfl
  have order := clampUnit_le_clampUnit
    (unclamped_le_of_ownTotal_le accepted country totals number number')
  exact ⟨order, Rating.ofScore_le_ofScore order⟩

def agePolicy : Policy where
  weights := some (.ofList [("age", 0.9), ("debt", 0.2)])
  countries := some (.ofList [("AT", 1.2)])

def oldClient : Client := { steadyClient with age := 76 }

/-- At 75 there is a share and no deduction. -/
theorem score_le_of_age_nearer_oldClient :
    agePolicy.violations = [] ∧ oldClient.isValid ∧ { oldClient with age := 75 : Client }.isValid ∧
      score agePolicy.engine agePolicy.weightTable oldClient ≤
        score agePolicy.engine agePolicy.weightTable { oldClient with age := 75 } ∧
      Rating.ofScore (score agePolicy.engine agePolicy.weightTable oldClient) ≤
        Rating.ofScore
          (score agePolicy.engine agePolicy.weightTable { oldClient with age := 75 }) := by
  have accepted : agePolicy.violations = [] := List.isEmpty_iff.1 (by decide +kernel)
  refine ⟨accepted, by decide +kernel, by decide +kernel, ?_⟩
  exact score_le_of_age_nearer agePolicy oldClient 75 accepted (by decide) (by decide +kernel)
    (by decide +kernel)

end CreditRating

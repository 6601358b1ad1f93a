import CreditRating.Proofs.Binary.Order
import CreditRating.Proofs.Decimal.Digits
import CreditRating.Proofs.Score.Share
import CreditRating.Client
import Mathlib.Data.List.Forall2

/-!
Screening is exact. A client is valid just if it keeps four rules, each rule that it breaks is
reported once, and the reports tell all that was wrong: the row, the rules, the age, and of an
amount whether it was a number.
-/

namespace CreditRating

open Binary

/-- No amount is accepted but those that compare as at least 0. -/
theorem amountFault?_eq_none_iff {x : Float} {v w : Violation} :
    amountFault? x v w = none ↔ 0.0 ≤ x := by
  have zero := isNaN_of_isFinite Factor.isFinite_zero
  rw [amountFault?]
  cases hx : x.isNaN with
  | true =>
      refine iff_of_false (by simp) ?_
      intro h
      rw [(isNaN_of_le h).2] at hx
      cases hx
  | false =>
      rw [le_iff zero hx]
      simp [lt_iff hx zero]

theorem amountFault?_eq (x : Float) (v w : Violation) :
    amountFault? x v w = if 0.0 ≤ x then none else some (if x.isNaN then v else w) := by
  split
  · next nonneg => exact amountFault?_eq_none_iff.2 nonneg
  · next negative =>
      have fault : amountFault? x v w ≠ none := mt amountFault?_eq_none_iff.1 negative
      rw [amountFault?] at fault ⊢
      split
      · rfl
      · next number =>
          rw [if_neg number] at fault
          exact if_pos (Decidable.byContradiction fun not => fault (if_neg not))

/-- Two amounts have the same fault just if both have none, or both are no numbers, or both are
negative numbers. -/
theorem amountFault?_congr_iff {x y : Float} {v w : Violation} (ne : v ≠ w) :
    amountFault? x v w = amountFault? y v w ↔
      ((0.0 ≤ x ↔ 0.0 ≤ y) ∧ (¬ 0.0 ≤ x → x.isNaN = y.isNaN)) := by
  rw [amountFault?_eq, amountFault?_eq]
  by_cases hx : 0.0 ≤ x <;> by_cases hy : 0.0 ≤ y <;> cases x.isNaN <;> cases y.isNaN <;>
    simp [hx, hy, ne, ne.symm]

namespace Client

/-- What a client is screened for. -/
inductive Rule where
  | age
  | income
  | occupation
  | debt
  deriving DecidableEq

def Rule.all : List Rule := [age, income, occupation, debt]

theorem Rule.mem_all (r : Rule) : r ∈ all := by
  cases r <;> simp [all]

def Keeps (c : Client) : Rule → Prop
  | .age => 0 < c.age ∧ c.age ≤ 120
  | .income => 0.0 ≤ c.income
  | .occupation => c.employment ≠ "" ∧ c.industry ≠ ""
  | .debt => 0.0 ≤ c.debt

instance (c : Client) (r : Rule) : Decidable (c.Keeps r) :=
  match r with
  | .age => inferInstanceAs (Decidable (0 < c.age ∧ c.age ≤ 120))
  | .income => inferInstanceAs (Decidable (0.0 ≤ c.income))
  | .occupation => inferInstanceAs (Decidable (c.employment ≠ "" ∧ c.industry ≠ ""))
  | .debt => inferInstanceAs (Decidable (0.0 ≤ c.debt))

def violation? (c : Client) : Rule → Option Violation
  | .age => if c.Keeps .age then none else some (.age c.age)
  | .income => amountFault? c.income .incomeNotANumber .incomeNegative
  | .occupation => if c.Keeps .occupation then none else some .occupationMissing
  | .debt => amountFault? c.debt .debtNotANumber .debtNegative

end Client

def Violation.rule : Violation → Client.Rule
  | age _ => .age
  | incomeNotANumber | incomeNegative => .income
  | occupationMissing => .occupation
  | debtNotANumber | debtNegative => .debt

namespace Client

variable {c d : Client}

theorem violation?_eq_none_iff (r : Rule) : c.violation? r = none ↔ c.Keeps r := by
  cases r with
  | age | occupation => simp [violation?]
  | income | debt => exact amountFault?_eq_none_iff

theorem rule_of_violation? {r : Rule} {v : Violation} (h : c.violation? r = some v) :
    v.rule = r := by
  cases r with
  | age | occupation =>
      rw [violation?] at h
      split at h <;> cases h
      rfl
  | income | debt =>
      rw [violation?, amountFault?_eq] at h
      split at h
      · cases h
      · cases h
        split <;> rfl

/-- A client is checked rule by rule, and each rule has one violation at most. -/
theorem violations_eq (c : Client) : c.violations = Rule.all.filterMap c.violation? := by
  have age : (if c.age ≤ 0 ∨ 120 < c.age then [Violation.age c.age] else []) =
      (c.violation? .age).toList := by
    rw [violation?, apply_ite Option.toList, ← ite_not]
    refine if_congr ?_ rfl rfl
    rw [Keeps, not_or, Int32.not_le, Int32.not_lt]
  have occupation : (if c.employment = "" ∨ c.industry = "" then [Violation.occupationMissing]
      else []) = (c.violation? .occupation).toList := by
    rw [violation?, apply_ite Option.toList, ← ite_not]
    exact if_congr not_or rfl rfl
  rw [violations, age, occupation, List.filterMap_eq_flatMap_toList]
  simp [Rule.all, violation?]

/-- One violation for each broken rule, in the order of the rules. -/
theorem map_rule_violations (c : Client) :
    c.violations.map Violation.rule = Rule.all.filter fun r => ¬ c.Keeps r := by
  rw [violations_eq]
  induction Rule.all with
  | nil => rfl
  | cons r rs ih =>
      cases h : c.violation? r with
      | none =>
          have kept := (violation?_eq_none_iff r).1 h
          rw [List.filterMap_cons_none h, ih, List.filter_cons_of_neg (by simpa using kept)]
      | some v =>
          have broken : ¬ c.Keeps r := mt (violation?_eq_none_iff r).2 (by simp [h])
          rw [List.filterMap_cons_some h, List.map_cons, ih, rule_of_violation? h,
            List.filter_cons_of_pos (by simpa using broken)]

theorem mem_violations {v : Violation} : v ∈ c.violations ↔ c.violation? v.rule = some v := by
  rw [violations_eq, List.mem_filterMap]
  constructor
  · rintro ⟨r, -, h⟩
    rwa [rule_of_violation? h]
  · exact fun h => ⟨v.rule, v.rule.mem_all, h⟩

theorem violations_eq_iff : c.violations = d.violations ↔ c.violation? = d.violation? := by
  constructor
  · intro same
    funext r
    refine Option.ext fun v => ?_
    constructor
    all_goals
      intro h
      obtain rfl := rule_of_violation? h
      have mem := mem_violations.2 h
    · rw [same] at mem
      exact mem_violations.1 mem
    · rw [← same] at mem
      exact mem_violations.1 mem
  · intro same
    rw [violations_eq, violations_eq, same]

theorem isValid_iff : c.isValid ↔ ∀ r, c.Keeps r := by
  rw [isValid, List.isEmpty_iff, ← List.map_eq_nil_iff (f := Violation.rule), map_rule_violations,
    List.filter_eq_nil_iff]
  simp [Rule.mem_all]

/-- The amounts of a valid client are not negative. -/
theorem nonneg_of_isValid (h : c.isValid) : 0.0 ≤ c.income ∧ 0.0 ≤ c.debt :=
  ⟨isValid_iff.1 h .income, isValid_iff.1 h .debt⟩

/-- So they are numbers. -/
theorem isNaN_of_isValid (h : c.isValid) : c.income.isNaN = false ∧ c.debt.isNaN = false := by
  obtain ⟨income, debt⟩ := nonneg_of_isValid h
  exact ⟨(isNaN_of_le income).2, (isNaN_of_le debt).2⟩

/-- Two clients break the same rules in the same way. -/
structure BreaksAlike (c d : Client) : Prop where
  rules : ∀ r, c.Keeps r ↔ d.Keeps r
  age : ¬ c.Keeps .age → c.age = d.age
  income : ¬ c.Keeps .income → c.income.isNaN = d.income.isNaN
  debt : ¬ c.Keeps .debt → c.debt.isNaN = d.debt.isNaN

theorem breaksAlike_iff : c.BreaksAlike d ↔ c.violation? = d.violation? := by
  have income : c.violation? .income = d.violation? .income ↔ _ :=
    amountFault?_congr_iff (by decide)
  have debt : c.violation? .debt = d.violation? .debt ↔ _ := amountFault?_congr_iff (by decide)
  constructor
  · intro h
    funext r
    cases r with
    | age =>
        by_cases kept : c.Keeps .age
        · rw [violation?, violation?, if_pos kept, if_pos ((h.rules .age).1 kept)]
        · rw [violation?, violation?, if_neg kept, if_neg (mt (h.rules .age).2 kept), h.age kept]
    | income => exact income.2 ⟨h.rules .income, h.income⟩
    | occupation => exact if_congr (h.rules .occupation) rfl rfl
    | debt => exact debt.2 ⟨h.rules .debt, h.debt⟩
  · intro h
    have rules (r : Rule) : c.Keeps r ↔ d.Keeps r := by
      rw [← violation?_eq_none_iff, ← violation?_eq_none_iff, h]
    refine ⟨rules, fun broken => ?_, (income.1 (congrFun h .income)).2,
      (debt.1 (congrFun h .debt)).2⟩
    have same := congrFun h .age
    rw [violation?, violation?, if_neg broken, if_neg (mt (rules .age).2 broken)] at same
    exact Violation.age.inj (Option.some.inj same)

end Client

namespace Violation

variable {v w : Violation} {row row' : Nat}

/-- Only the age that is not allowed is told by its number. -/
theorem text_injective (h : v.text = w.text) : v = w := by
  have age (n : Int32) : (Violation.age n).text.toList.take 13 = "Invalid age: ".toList := by
    rw [text, String.toList_append]
    rfl
  have chars : v.text.toList = w.text.toList := congrArg String.toList h
  cases v with
  | age n =>
      cases w with
      | age m =>
          have numbers : (toString n.toInt).toList = (toString m.toInt).toList := by
            rw [text, text, String.toList_append, String.toList_append] at chars
            exact List.append_cancel_left chars
          have read := Decimal.readInt?_toString n.toInt
          rw [numbers, Decimal.readInt?_toString] at read
          rw [Int32.toInt_inj.1 (Option.some.inj read)]
      | _ =>
          have start := congrArg (List.take 13) chars
          rw [age n] at start
          exact absurd start (by decide)
  | _ =>
      cases w with
      | age m =>
          have start := congrArg (List.take 13) chars
          rw [age m] at start
          exact absurd start (by decide)
      | _ => first | rfl | exact absurd h (by decide)

theorem toList_message (v : Violation) (row : Nat) :
    (v.message row).toList =
      "Row ".toList ++ (Nat.toDigits 10 row ++ ':' :: ' ' :: v.text.toList) := by
  have mark : ": ".toList = [':', ' '] := rfl
  rw [message, String.toList_append, String.toList_append, String.toList_append, mark,
    Nat.toString_eq_repr, Nat.toList_repr]
  simp

/-- The row ends where its digits end, so a message tells its row and its violation. -/
theorem message_injective (h : v.message row = w.message row') : row = row' ∧ v = w := by
  have chars := congrArg String.toList h
  rw [toList_message, toList_message] at chars
  have spans := congrArg Decimal.digitSpan (List.append_cancel_left chars)
  rw [Decimal.digitSpan_append (Decimal.allDigits_toDigits row) rfl,
    Decimal.digitSpan_append (Decimal.allDigits_toDigits row') rfl, Prod.mk.injEq] at spans
  have rows := congrArg Decimal.digitValue spans.1
  rw [Decimal.digitValue_toDigits, Decimal.digitValue_toDigits] at rows
  have texts := (List.cons.inj (List.cons.inj spans.2).2).2
  exact ⟨rows, text_injective (String.toList_inj.1 texts)⟩

end Violation

namespace Client

theorem reasons_eq_nil_iff {c : Client} {row : Nat} : c.reasons row = [] ↔ c.isValid := by
  rw [reasons, List.map_eq_nil_iff, isValid, List.isEmpty_iff]

/-- Reasons tell the row as soon as there is one. -/
theorem reasons_eq_iff {c d : Client} {row row' : Nat} :
    c.reasons row = d.reasons row' ↔
      (c.isValid ∧ d.isValid) ∨ (row = row' ∧ c.violations = d.violations) := by
  constructor
  · intro same
    cases hc : c.violations with
    | nil =>
        have valid : c.isValid := List.isEmpty_iff.2 hc
        exact .inl ⟨valid, reasons_eq_nil_iff.1 (same ▸ reasons_eq_nil_iff.2 valid)⟩
    | cons v vs =>
        refine .inr ?_
        rw [reasons, hc, reasons] at same
        cases hd : d.violations with
        | nil =>
            rw [hd] at same
            cases same
        | cons w ws =>
            rw [hd] at same
            obtain ⟨rfl, -⟩ := Violation.message_injective (List.cons.inj same).1
            have injective : Function.Injective (Violation.message row) :=
              fun v w h => (Violation.message_injective h).2
            exact ⟨rfl, List.map_injective_iff.2 injective same⟩
  · rintro (⟨hc, hd⟩ | ⟨rfl, same⟩)
    · rw [reasons_eq_nil_iff.2 hc, reasons_eq_nil_iff.2 hd]
    · rw [reasons, reasons, same]

/-- A client is valid just if it keeps the rules. Else each rule that it breaks has one reason, in
the order of the rules, that begins with the row; and the same reasons are given only for the same
row and for clients that break the same rules in the same way. -/
theorem reasons_exact (c : Client) (row : Nat) :
    (c.reasons row = [] ↔ (0 < c.age ∧ c.age ≤ 120) ∧ 0.0 ≤ c.income ∧
      (c.employment ≠ "" ∧ c.industry ≠ "") ∧ 0.0 ≤ c.debt) ∧
    List.Forall₂ (fun (r : Rule) reason => ∃ v : Violation, v.rule = r ∧
        c.violation? r = some v ∧ reason = "Row " ++ toString row ++ ": " ++ v.text)
      (Rule.all.filter fun r => ¬ c.Keeps r) (c.reasons row) ∧
    ∀ (d : Client) (row' : Nat), c.reasons row = d.reasons row' ↔
      (c.isValid ∧ d.isValid) ∨ (row = row' ∧ c.BreaksAlike d) := by
  refine ⟨?_, ?_, fun d row' => ?_⟩
  · rw [reasons_eq_nil_iff, isValid_iff]
    refine ⟨fun h => ⟨h .age, h .income, h .occupation, h .debt⟩, ?_⟩
    rintro ⟨age, income, occupation, debt⟩ r
    cases r with
    | age => exact age
    | income => exact income
    | occupation => exact occupation
    | debt => exact debt
  · rw [← map_rule_violations, reasons, List.forall₂_map_left_iff, List.forall₂_map_right_iff]
    exact List.forall₂_same.2 fun v hv => ⟨v, rfl, mem_violations.1 hv, rfl⟩
  · rw [reasons_eq_iff, violations_eq_iff, breaksAlike_iff]

end Client
end CreditRating

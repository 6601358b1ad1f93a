import CreditRating.Proofs.Score.Range
import CreditRating.Proofs.Text.Trim

/-!
The check of a policy is exact. Its answer lists each rule that an entry breaks once, in one
fixed order, and lists nothing else; so a policy passes just if every entry keeps its rules, and
then no weight and no multiplier that scoring can meet breaks one.
-/

namespace CreditRating

open Binary

/-- The rule for numbers, as comparisons read it. -/
theorem isAllowed_iff {x : Float} : isAllowed x ↔ x.isFinite ∧ 0.0 ≤ x := by
  have zero := isNaN_of_isFinite Factor.isFinite_zero
  rw [isAllowed, Bool.and_eq_true]
  refine and_congr_right fun finite => ?_
  have number := isNaN_of_isFinite finite
  rw [le_iff zero number]
  simp [lt_iff number zero]

namespace Policy

inductive Part where
  | weights
  | countries
  deriving DecidableEq

inductive Rule where
  | name
  | number
  deriving DecidableEq

/-- A rule at an entry of a part. -/
structure Breach where
  part : Part
  name : String
  number : Float
  rule : Rule

def table? (p : Policy) : Part → Option Table
  | .weights => p.weights
  | .countries => p.countries

/-- The names that mean something: the factors, and codes with more than white space. -/
def Part.Knows : Part → String → Prop
  | weights, name => name ∈ factorNames
  | countries, code => ∃ c ∈ code.toList, Text.isBlank c = false

instance (k : Part) (name : String) : Decidable (k.Knows name) :=
  match k with
  | .weights => inferInstanceAs (Decidable (name ∈ factorNames))
  | .countries => inferInstanceAs (Decidable (∃ c ∈ name.toList, Text.isBlank c = false))

/-- The entry keeps the rule. -/
def Breach.IsKept (b : Breach) : Prop :=
  match b.rule with
  | .name => b.part.Knows b.name
  | .number => b.number.isFinite ∧ 0.0 ≤ b.number

instance (b : Breach) : Decidable b.IsKept :=
  match h : b.rule with
  | .name => decidable_of_iff (b.part.Knows b.name) (by rw [Breach.IsKept, h])
  | .number => decidable_of_iff (b.number.isFinite ∧ 0.0 ≤ b.number) (by rw [Breach.IsKept, h])

/-- The policy has the entry, and the entry breaks the rule. -/
def Breaks (p : Policy) (b : Breach) : Prop :=
  (∃ t ∈ p.table? b.part, t.get? b.name = some b.number) ∧ ¬ b.IsKept

/-- Weights come before countries, the entries of a part in the order of the bytes of their
names, and the name of an entry before its number. -/
inductive Breach.Before : Breach → Breach → Prop
  | part {n n' : String} {x x' : Float} {r r' : Rule} :
      Before ⟨.weights, n, x, r⟩ ⟨.countries, n', x', r'⟩
  | name {k : Part} {n n' : String} {x x' : Float} {r r' : Rule}
      (h : Utf8.bytes n < Utf8.bytes n') : Before ⟨k, n, x, r⟩ ⟨k, n', x', r'⟩
  | rule {k : Part} {n : String} {x : Float} : Before ⟨k, n, x, .name⟩ ⟨k, n, x, .number⟩

theorem Breach.Before.ne {b b' : Breach} (h : b.Before b') : b ≠ b' := by
  rintro rfl
  cases h with
  | name less => exact List.lt_irrefl _ less

def Breach.violation : Breach → PolicyViolation
  | ⟨.weights, name, _, .name⟩ => .unknownFactor name
  | ⟨.weights, name, x, .number⟩ => .badWeight name x
  | ⟨.countries, _, _, .name⟩ => .emptyCode
  | ⟨.countries, code, x, .number⟩ => .badMultiplier code x

def entryBreaches (k : Part) (e : String × Float) : List Breach :=
  ([.name, .number].map (Breach.mk k e.1 e.2)).filter fun b => ¬ b.IsKept

def partBreaches (p : Policy) (k : Part) : List Breach :=
  (entriesOf (p.table? k)).flatMap (entryBreaches k)

def breaches (p : Policy) : List Breach :=
  [Part.weights, Part.countries].flatMap p.partBreaches

theorem mem_entryBreaches {k : Part} {e : String × Float} {b : Breach} :
    b ∈ entryBreaches k e ↔ b.part = k ∧ b.name = e.1 ∧ b.number = e.2 ∧ ¬ b.IsKept := by
  rw [entryBreaches, List.mem_filter, List.mem_map, decide_eq_true_iff]
  constructor
  · rintro ⟨⟨r, -, rfl⟩, broken⟩
    exact ⟨rfl, rfl, rfl, broken⟩
  · rintro ⟨rfl, name, number, broken⟩
    refine ⟨⟨b.rule, ?_, ?_⟩, broken⟩
    · cases b.rule <;> simp
    · rw [← name, ← number]

theorem mem_entriesOf {t : Option Table} {e : String × Float} :
    e ∈ entriesOf t ↔ ∃ u ∈ t, u.get? e.1 = some e.2 := by
  cases t with
  | none => simp [entriesOf]
  | some u => simp [entriesOf, Table.get?_eq_some_iff]

theorem pairwise_entriesOf (t : Option Table) :
    (entriesOf t).Pairwise fun d e => Utf8.bytes d.1 < Utf8.bytes e.1 := by
  cases t with
  | none => exact .nil
  | some u => exact u.pairwise_bytes

/-- The check finds exactly the rules that the policy breaks. -/
theorem mem_breaches {p : Policy} {b : Breach} : b ∈ p.breaches ↔ p.Breaks b := by
  simp only [breaches, partBreaches, List.mem_flatMap, mem_entryBreaches, mem_entriesOf]
  constructor
  · rintro ⟨k, -, e, entry, rfl, name, number, broken⟩
    rw [← name, ← number] at entry
    exact ⟨entry, broken⟩
  · rintro ⟨entry, broken⟩
    refine ⟨b.part, ?_, (b.name, b.number), entry, rfl, rfl, rfl, broken⟩
    cases b.part <;> simp

theorem pairwise_entryBreaches (k : Part) (e : String × Float) :
    (entryBreaches k e).Pairwise Breach.Before :=
  List.Pairwise.filter _ (List.pairwise_pair.2 .rule)

/-- They are found in their order, so none is found twice. -/
theorem pairwise_breaches (p : Policy) : p.breaches.Pairwise Breach.Before := by
  have parts (k : Part) : (p.partBreaches k).Pairwise Breach.Before := by
    refine List.pairwise_flatMap.2 ⟨fun e _ => pairwise_entryBreaches k e, ?_⟩
    refine (pairwise_entriesOf (p.table? k)).imp ?_
    intro d e less b hb b' hb'
    obtain ⟨rfl, name, -, -⟩ := mem_entryBreaches.1 hb
    obtain ⟨part, name', -, -⟩ := mem_entryBreaches.1 hb'
    rw [← name, ← name'] at less
    obtain ⟨k, n, x, r⟩ := b
    obtain ⟨k', n', x', r'⟩ := b'
    cases part
    exact .name less
  refine List.pairwise_flatMap.2 ⟨fun k _ => parts k, List.pairwise_pair.2 ?_⟩
  intro b hb b' hb'
  obtain ⟨d, -, hd⟩ := List.mem_flatMap.1 hb
  obtain ⟨d', -, hd'⟩ := List.mem_flatMap.1 hb'
  obtain ⟨part, -⟩ := mem_entryBreaches.1 hd
  obtain ⟨part', -⟩ := mem_entryBreaches.1 hd'
  obtain ⟨k, n, x, r⟩ := b
  obtain ⟨k', n', x', r'⟩ := b'
  cases part
  cases part'
  exact .part

theorem map_violation_entryBreaches (k : Part) (e : String × Float) :
    (entryBreaches k e).map Breach.violation =
      (if k.Knows e.1 then [] else [Breach.violation ⟨k, e.1, e.2, .name⟩]) ++
        if isAllowed e.2 then [] else [Breach.violation ⟨k, e.1, e.2, .number⟩] := by
  by_cases known : k.Knows e.1 <;> by_cases allowed : e.2.isFinite ∧ 0.0 ≤ e.2 <;>
    simp [entryBreaches, Breach.IsKept, isAllowed_iff, known, allowed]

theorem weightViolations_eq (e : String × Float) :
    weightViolations e = (entryBreaches .weights e).map Breach.violation := by
  rw [map_violation_entryBreaches]
  exact congrArg (· ++ _) (if_congr List.contains_iff_mem rfl rfl)

theorem countryViolations_eq (e : String × Float) :
    countryViolations e = (entryBreaches .countries e).map Breach.violation := by
  have blank : Text.trim e.1.toList = [] ↔ ¬ Part.countries.Knows e.1 := by
    rw [Text.trim, Text.trimBoth_eq_nil_iff]
    simp [Part.Knows]
  rw [map_violation_entryBreaches, ← ite_not]
  exact congrArg (· ++ _) (if_congr blank rfl rfl)

/-- What is reported is a report for each breach. -/
theorem violations_eq (p : Policy) : p.violations = p.breaches.map Breach.violation := by
  simp only [violations, breaches, partBreaches, table?, List.flatMap_cons, List.flatMap_nil,
    List.append_nil, List.map_append, List.map_flatMap, funext weightViolations_eq,
    funext countryViolations_eq]

/-- Every entry of the policy keeps its rules. -/
structure Sound (p : Policy) : Prop where
  weights : ∀ t ∈ p.weights, ∀ name x, t.get? name = some x →
    name ∈ factorNames ∧ x.isFinite ∧ 0.0 ≤ x
  countries : ∀ t ∈ p.countries, ∀ code x, t.get? code = some x →
    (∃ c ∈ code.toList, Text.isBlank c = false) ∧ x.isFinite ∧ 0.0 ≤ x

theorem sound_iff {p : Policy} : p.Sound ↔ ∀ b, ¬ p.Breaks b := by
  have kept (h : ∀ b, ¬ p.Breaks b) {k : Part} {t : Table} (ht : t ∈ p.table? k) {n : String}
      {x : Float} (entry : t.get? n = some x) (r : Rule) : Breach.IsKept ⟨k, n, x, r⟩ :=
    Decidable.byContradiction fun broken => h ⟨k, n, x, r⟩ ⟨⟨t, ht, entry⟩, broken⟩
  constructor
  · rintro h ⟨k, n, x, r⟩ ⟨⟨t, ht, entry⟩, broken⟩
    have sound : k.Knows n ∧ x.isFinite ∧ 0.0 ≤ x := by
      cases k with
      | weights => exact h.weights t ht n x entry
      | countries => exact h.countries t ht n x entry
    cases r with
    | name => exact broken sound.1
    | number => exact broken sound.2
  · intro h
    constructor
    · intro t ht n x entry
      exact ⟨kept h (k := .weights) ht entry .name, kept h (k := .weights) ht entry .number⟩
    · intro t ht n x entry
      exact ⟨kept h (k := .countries) ht entry .name, kept h (k := .countries) ht entry .number⟩

/-- Nothing is reported about a sound policy, and something about any other. -/
theorem violations_eq_nil_iff {p : Policy} : p.violations = [] ↔ p.Sound := by
  rw [violations_eq, List.map_eq_nil_iff, List.eq_nil_iff_forall_not_mem, sound_iff]
  exact forall_congr' fun b => not_congr mem_breaches

/-- A policy is refused just if an entry breaks a rule, and then for each broken rule of each
entry once, in order. Under any other policy all that scoring looks up is finite and not below
zero. -/
theorem ofPolicy_breaches (p : Policy) :
    ((∃ q, Pipeline.ofPolicy p = .ok q) ↔ p.Sound) ∧
    (¬ p.Sound → ∃ bs : List Breach, (∀ b, b ∈ bs ↔ p.Breaks b) ∧ bs.Nodup ∧
      bs.Pairwise Breach.Before ∧ Pipeline.ofPolicy p = .error (bs.map Breach.violation)) ∧
    (p.Sound → ∀ name,
      ((Weights.weight p.weightTable name).isFinite ∧ 0.0 ≤ Weights.weight p.weightTable name) ∧
      ∀ m, p.engine.multiplier? name = some m → m.isFinite ∧ 0.0 ≤ m) := by
  have passes (h : p.Sound) : Pipeline.ofPolicy p = .ok ⟨p.weightTable, p.engine⟩ :=
    if_pos (List.isEmpty_iff.2 (violations_eq_nil_iff.2 h))
  have fails (h : ¬ p.Sound) : Pipeline.ofPolicy p = .error p.violations :=
    if_neg fun none => h (violations_eq_nil_iff.1 (List.isEmpty_iff.1 none))
  refine ⟨⟨fun ⟨q, ok⟩ => ?_, fun h => ⟨_, passes h⟩⟩, fun h => ?_, fun h name => ?_⟩
  · refine Classical.byContradiction fun broken => ?_
    rw [fails broken] at ok
    cases ok
  · refine ⟨p.breaches, fun b => mem_breaches, p.pairwise_breaches.imp (·.ne),
      p.pairwise_breaches, ?_⟩
    rw [fails h, violations_eq]
  · have none := violations_eq_nil_iff.2 h
    exact ⟨isAllowed_iff.1 (isAllowed_weight none name),
      fun m hm => isAllowed_iff.1 (isAllowed_multiplier none hm)⟩

/-- A name that is no factor, with a number below zero, and a code of white space without any
number. The negative zero is not below zero. -/
def brokenPolicy : Policy where
  weights := some (.ofList [("salary", -1.0), ("age", -0.0)])
  countries := some (.ofList [("GR", -0.7), (" ", 0.0 / 0.0)])

theorem ofPolicy_breaches_brokenPolicy :
    ¬ brokenPolicy.Sound ∧
    (∃ bs : List Breach, (∀ b, b ∈ bs ↔ brokenPolicy.Breaks b) ∧ bs.Nodup ∧
      bs.Pairwise Breach.Before ∧
      Pipeline.ofPolicy brokenPolicy = .error (bs.map Breach.violation) ∧
      (bs.map Breach.violation).map PolicyViolation.message =
        ["scoring.weights.salary: unknown factor (expected one of: age, income, employment, " ++
          "industry, debt)",
        "scoring.weights.salary: must be a non-negative number, got -1",
        "scoring.countries: empty country code",
        "scoring.countries. : must be a non-negative number, got NaN",
        "scoring.countries.GR: must be a non-negative number, got -0.7"]) ∧
    hugeWeights.Sound ∧ (Weights.weight hugeWeights.weightTable "income").isFinite ∧
    hugeWeights.engine.multiplier? "AT" = some 0.0 ∧ 0.0 ≤ (0.0 : Float) := by
  have refused : brokenPolicy.violations.isEmpty = false := by decide +kernel
  have broken : ¬ brokenPolicy.Sound := by
    intro h
    rw [violations_eq_nil_iff.2 h] at refused
    cases refused
  have sound : hugeWeights.Sound :=
    violations_eq_nil_iff.1 (List.isEmpty_iff.1 (by decide +kernel))
  have multiplier : hugeWeights.engine.multiplier? "AT" = some 0.0 := by decide +kernel
  obtain ⟨bs, all, once, ordered, reported⟩ := (ofPolicy_breaches brokenPolicy).2.1 broken
  have answers := (ofPolicy_breaches hugeWeights).2.2 sound
  refine ⟨broken, ⟨bs, all, once, ordered, reported, ?_⟩, sound, (answers "income").1.1, multiplier,
    ((answers "AT").2 0.0 multiplier).2⟩
  have answer : Pipeline.ofPolicy brokenPolicy = .error brokenPolicy.violations :=
    if_neg (by simp [refused])
  rw [← Except.error.inj (answer.symm.trans reported)]
  decide +kernel

end Policy
end CreditRating

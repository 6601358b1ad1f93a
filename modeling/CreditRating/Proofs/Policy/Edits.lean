import CreditRating.Batch
import CreditRating.Proofs.Policy.Multipliers
import Mathlib.Data.List.DropRight
import Mathlib.Data.List.Induction

/-!
Weights and engines under any sequence of changes. What a look-up answers is decided by the
last change of the name that was looked up, unless the whole table has been replaced since;
then by the table that took its place. Neither table sees the changes of the other.
-/

namespace CreditRating

/-- A change of what a pipeline scores with. -/
inductive Edit where
  | setWeight (factor : String) (value : Float)
  | emptyWeights
  | standardWeights
  | setMultiplier (country : String) (value : Float)
  | standardEngine

namespace Edit

def apply (p : Pipeline) : Edit → Pipeline
  | setWeight factor value => { p with weights := p.weights.insert factor value }
  | emptyWeights => { p with weights := ∅ }
  | standardWeights => { p with weights := Weights.standard }
  | setMultiplier country value => { p with engine := p.engine.withMultiplier country value }
  | standardEngine => { p with engine := Engine.standard }

def isOfWeights : Edit → Bool
  | setWeight _ _ | emptyWeights | standardWeights => true
  | setMultiplier _ _ | standardEngine => false

def newWeights? : Edit → Option Table
  | emptyWeights => some ∅
  | standardWeights => some Weights.standard
  | _ => none

def weight? (factor : String) : Edit → Option Float
  | setWeight name value => if factor = name then some value else none
  | _ => none

def newEngine? : Edit → Option Engine
  | standardEngine => some Engine.standard
  | _ => none

def multiplier? (country : String) : Edit → Option Float
  | setMultiplier name value => if country = name then some value else none
  | _ => none

section

variable {α : Type} (new? : Edit → Option α) (value? : Edit → Option Float)

/-- The last replacement, or what there was at the start. -/
def replaced (start : α) (es : List Edit) : α :=
  ((es.filterMap new?).getLast?).getD start

/-- The last value that was given since the last replacement. -/
def given? (es : List Edit) : Option Float :=
  ((es.rtakeWhile fun e => (new? e).isNone).filterMap value?).getLast?

theorem replaced_concat (start : α) (es : List Edit) (e : Edit) :
    replaced new? start (es ++ [e]) = (new? e).getD (replaced new? start es) := by
  rw [replaced, List.filterMap_append, List.getLast?_append]
  cases h : new? e with
  | none => simp [h, replaced]
  | some a => simp [h]

/-- A replacement of the whole forgets what was given before it. -/
theorem given?_concat (es : List Edit) (e : Edit) :
    given? new? value? (es ++ [e]) =
      if (new? e).isNone then (value? e).or (given? new? value? es) else none := by
  rw [given?, List.rtakeWhile_concat]
  split
  · rw [List.filterMap_append, List.getLast?_append]
    cases h : value? e <;> simp [h, given?]
  · rfl

end

end Edit

namespace Pipeline

/-- The pipeline after changes, the first of them first. -/
def edited (p : Pipeline) (es : List Edit) : Pipeline := es.foldl Edit.apply p

/-- A look-up for which each change either starts anew or gives a value or does nothing
answers with the last value since the last start. -/
theorem look_edited {α : Type} {new? : Edit → Option α} {value? : Edit → Option Float}
    (look : Pipeline → Option Float) (base : α → Option Float)
    (fresh : ∀ p e a, new? e = some a → look (e.apply p) = base a)
    (kept : ∀ p e, new? e = none → look (e.apply p) = (value? e).or (look p))
    {p : Pipeline} {start : α} (first : look p = base start) (es : List Edit) :
    look (p.edited es) =
      (Edit.given? new? value? es).or (base (Edit.replaced new? start es)) := by
  induction es using List.reverseRecOn with
  | nil => exact first
  | append_singleton es e ih =>
      have run : p.edited (es ++ [e]) = e.apply (p.edited es) := List.foldl_concat _ _ _ _
      rw [run, Edit.given?_concat, Edit.replaced_concat]
      cases h : new? e with
      | none => simp [kept _ e h, ih, Option.or_assoc]
      | some a => simp [fresh _ e a h]

theorem get?_weights_edited (p : Pipeline) (es : List Edit) (factor : String) :
    (p.edited es).weights.get? factor =
      (Edit.given? Edit.newWeights? (Edit.weight? factor) es).or
        ((Edit.replaced Edit.newWeights? p.weights es).get? factor) := by
  refine look_edited (fun p => p.weights.get? factor) (fun t : Table => t.get? factor) ?_ ?_ rfl es
  · intro p e t h
    cases e <;> cases h <;> rfl
  · intro p e h
    cases e with
    | setWeight name value =>
        rw [Edit.weight?]
        refine (p.weights.get?_insert name factor value).trans ?_
        split <;> rfl
    | emptyWeights | standardWeights => cases h
    | setMultiplier _ _ | standardEngine => rfl

theorem multiplier?_edited (p : Pipeline) (es : List Edit) (country : String) :
    (p.edited es).engine.multiplier? country =
      (Edit.given? Edit.newEngine? (Edit.multiplier? country) es).or
        ((Edit.replaced Edit.newEngine? p.engine es).multiplier? country) := by
  refine look_edited (fun p => p.engine.multiplier? country)
    (fun e : Engine => e.multiplier? country) ?_ ?_ rfl es
  · intro p e f h
    cases e with
    | standardEngine =>
        cases h
        rfl
    | setWeight _ _ | emptyWeights | standardWeights | setMultiplier _ _ => cases h
  · intro p e h
    cases e with
    | setMultiplier name value =>
        rw [Edit.multiplier?]
        refine (p.engine.multiplier?_withMultiplier name country value).trans ?_
        split <;> rfl
    | standardEngine => cases h
    | setWeight _ _ | emptyWeights | standardWeights => rfl

end Pipeline

/-- No engine that replaces the standard one is another. -/
theorem Edit.replaced_newEngine (es : List Edit) :
    Edit.replaced Edit.newEngine? Engine.standard es = Engine.standard := by
  induction es using List.reverseRecOn with
  | nil => rfl
  | append_singleton es e ih =>
      rw [replaced_concat, ih]
      cases e <;> rfl

/-- A change is seen by one of the two tables only. -/
theorem Edit.apply_keeps (p : Pipeline) (e : Edit) :
    (e.isOfWeights ∧ (e.apply p).engine = p.engine) ∨
      (e.isOfWeights = false ∧ (e.apply p).weights = p.weights) := by
  cases e with
  | setWeight _ _ | emptyWeights | standardWeights => exact .inl ⟨rfl, rfl⟩
  | setMultiplier _ _ | standardEngine => exact .inr ⟨rfl, rfl⟩

structure Engine.HasStandardLabels (e : Engine) : Prop where
  stable : e.stableEmployment = Engine.standard.stableEmployment
  safe : e.safeIndustries = Engine.standard.safeIndustries

theorem Edit.hasStandardLabels_apply {p : Pipeline} (h : p.engine.HasStandardLabels) (e : Edit) :
    (e.apply p).engine.HasStandardLabels := by
  cases e with
  | setWeight _ _ | emptyWeights | standardWeights => exact h
  | setMultiplier _ _ => exact ⟨h.stable, h.safe⟩
  | standardEngine => exact ⟨rfl, rfl⟩

theorem Pipeline.hasStandardLabels_edited {p : Pipeline} (h : p.engine.HasStandardLabels)
    (es : List Edit) : (p.edited es).engine.HasStandardLabels := by
  induction es generalizing p with
  | nil => exact h
  | cons e es ih => exact ih (Edit.hasStandardLabels_apply h e)

/-- After any sequence of changes a factor weighs what it was last given since the weights were
last replaced, else what the replacement says, else nothing. The weights are listed once, in the
order of the bytes. The multiplier of a country is found in the same way. A change of one table is
not seen by the other, and none by the labels. The countries of a policy stand before those of the
standard engine. -/
theorem look_ups_edited (t : Table) (es : List Edit) :
    let s := Pipeline.edited ⟨t, Engine.standard⟩ es
    (∀ factor,
      let found := (Edit.given? Edit.newWeights? (Edit.weight? factor) es).or
        ((Edit.replaced Edit.newWeights? t es).get? factor)
      Weights.weight s.weights factor = found.getD 0.0 ∧
        ∀ x, (factor, x) ∈ s.weights.entries ↔ found = some x) ∧
    s.weights.entries.Pairwise (fun d e => Utf8.bytes d.1 < Utf8.bytes e.1) ∧
    s.weights.size = s.weights.entries.length ∧ (s.weights.isEmpty ↔ s.weights.size = 0) ∧
    (∀ country, s.engine.multiplier? country =
      (Edit.given? Edit.newEngine? (Edit.multiplier? country) es).or
        (Engine.standard.multiplier? country)) ∧
    (∀ e : Edit, (e.isOfWeights ∧ (e.apply s).engine = s.engine) ∨
      (e.isOfWeights = false ∧ (e.apply s).weights = s.weights)) ∧
    (∀ label, s.engine.isStable label = Engine.standard.isStable label ∧
      s.engine.isSafe label = Engine.standard.isSafe label) ∧
    ∀ (p : Policy) (country : String), p.engine.multiplier? country =
      (p.countries.bind (·.get? country)).or (Engine.standard.multiplier? country) := by
  intro s
  have labels : s.engine.HasStandardLabels := Pipeline.hasStandardLabels_edited ⟨rfl, rfl⟩ es
  refine ⟨fun factor => ?_, s.weights.pairwise_bytes, rfl, ?_, fun country => ?_,
    Edit.apply_keeps s, fun label => ⟨?_, ?_⟩, fun p country => p.multiplier?_engine country⟩
  · have found := Pipeline.get?_weights_edited ⟨t, Engine.standard⟩ es factor
    refine ⟨congrArg (·.getD 0.0) found, fun x => ?_⟩
    rw [← found]
    exact Table.get?_eq_some_iff.symm
  · rw [Table.isEmpty, Table.size, List.isEmpty_iff, List.length_eq_zero_iff]
  · have found := Pipeline.multiplier?_edited ⟨t, Engine.standard⟩ es country
    rwa [Edit.replaced_newEngine] at found
  · rw [Engine.isStable, labels.stable, ← Engine.isStable]
  · rw [Engine.isSafe, labels.safe, ← Engine.isSafe]

/-- A value that a replacement has swept away, and one that is no number. -/
example :
    let s := Pipeline.edited ⟨Weights.standard, Engine.standard⟩
      [.setWeight "age" 2.0, .setMultiplier "PL" 0.5, .emptyWeights, .setWeight "debt" (-2.5),
        .setMultiplier "DE" (0.0 / 0.0), .setWeight "debt" (-0.0)]
    s.weights.entries = [("debt", -0.0)] ∧ Weights.weight s.weights "age" = 0.0 ∧
      s.engine.multiplier? "PL" = some 0.5 ∧ s.engine.multiplier? "DE" = some (0.0 / 0.0) := by
  decide +kernel

end CreditRating

import CreditRating.OutcomeDocument
import CreditRating.Proofs.Json.Rereading
import CreditRating.Proofs.Report.Decoding

/-!
The document of a batch read back. Every field is found under its name, and nothing is
lost but the numbers that are not finite.
-/

namespace CreditRating

namespace Json
namespace Tree

/-- The member with a name, if there is exactly one. -/
def member? (name : String) : Tree → Option Tree
  | .object members =>
      match members.filter fun m => m.1 = name with
      | [m] => some m.2
      | _ => none
  | _ => none

def items? : Tree → Option (List Tree)
  | .array items => some items
  | _ => none

def text? : Tree → Option String
  | .string s => some s
  | _ => none

def integer? : Tree → Option Int
  | .number t => Decimal.readInt? t
  | _ => none

def amount? : Tree → Option (Option Float)
  | .number t => (Decimal.read? t).map some
  | .null => some none
  | _ => none

end Tree
end Json

open Json (Tree)

/-- A client in a document. An amount may be missing. -/
structure ClientEntry where
  id : String
  name : String
  country : String
  clientType : String
  age : Int
  income : Option Float
  employment : String
  industry : String
  debt : Option Float
  score : Option Float
  deriving DecidableEq, Repr

structure ScoredEntry where
  client : ClientEntry
  rating : Rating
  deriving DecidableEq, Repr

structure OutcomeEntry where
  results : List ScoredEntry
  rejected : List Rejection
  deriving DecidableEq, Repr

def ClientEntry.ofTree? (t : Tree) : Option ClientEntry := do
  return {
    id := ← (← t.member? "id").text?
    name := ← (← t.member? "name").text?
    country := ← (← t.member? "country").text?
    clientType := ← (← t.member? "client_type").text?
    age := ← (← t.member? "age").integer?
    income := ← (← t.member? "income").amount?
    employment := ← (← t.member? "employment").text?
    industry := ← (← t.member? "industry").text?
    debt := ← (← t.member? "debt").amount?
    score := ← (← t.member? "score").amount? }

def ScoredEntry.ofTree? (t : Tree) : Option ScoredEntry := do
  return {
    client := ← ClientEntry.ofTree? (← t.member? "client")
    rating := ← Rating.ofLabel? (← (← t.member? "rating").text?) }

def Rejection.ofTree? (t : Tree) : Option Rejection := do
  return {
    row := ← (← (← t.member? "row").integer?).toNat?
    id := ← (← t.member? "id").text?
    reasons := ← (← (← t.member? "reasons").items?).mapM Tree.text? }

def OutcomeEntry.ofTree? (t : Tree) : Option OutcomeEntry := do
  return {
    results := ← (← (← t.member? "results").items?).mapM ScoredEntry.ofTree?
    rejected := ← (← (← t.member? "rejected").items?).mapM Rejection.ofTree? }

def finite? (x : Float) : Option Float :=
  if x.isFinite then some x else none

def ClientEntry.of (c : Client) : ClientEntry where
  id := c.id
  name := c.name
  country := c.country
  clientType := c.clientType
  age := c.age.toInt
  income := finite? c.income
  employment := c.employment
  industry := c.industry
  debt := finite? c.debt
  score := finite? c.score

def ScoredEntry.of (s : Scored) : ScoredEntry :=
  ⟨.of s.client, s.rating⟩

def OutcomeEntry.of (o : Outcome) : OutcomeEntry :=
  ⟨o.results.map .of, o.rejected⟩

namespace Json

@[simp] theorem tree_object (ms : List (String × Value)) :
    (Value.object ms).tree = .object (Value.memberTrees ms) := by
  rw [Value.tree]

@[simp] theorem items?_tree (vs : List Value) :
    (Value.array vs).tree.items? = some (Value.trees vs) := by
  rw [Value.tree, Tree.items?]

@[simp] theorem text?_tree (s : String) : (Value.string s).tree.text? = some s := by
  rw [Value.tree, Tree.text?]

@[simp] theorem integer?_tree (n : ℤ) : (Value.integer n).tree.integer? = some n := by
  rw [Value.tree, Tree.integer?, Decimal.readInt?_toString]

@[simp] theorem amount?_tree (x : Float) :
    (Value.number x).tree.amount? = some (finite? x) := by
  rw [Value.tree, finite?]
  split
  · next finite => rw [Tree.amount?, (document_text finite).2, Option.map_some]
  · rfl

theorem mapM_trees {α β : Type} {toJson : α → Value} {ofTree? : Tree → Option β} {f : α → β}
    (h : ∀ a, ofTree? (toJson a).tree = some (f a)) (l : List α) :
    (Value.trees (l.map toJson)).mapM ofTree? = some (l.map f) := by
  induction l with
  | nil => rfl
  | cons a l ih =>
      rw [List.map_cons, Value.trees, List.mapM_cons, h, ih]
      rfl

end Json

open Json.Value (memberTrees)

theorem ClientEntry.ofTree?_toJson (c : Client) : ofTree? c.toJson.tree = some (.of c) := by
  simp [ofTree?, Client.toJson, memberTrees, Tree.member?, of]

theorem ScoredEntry.ofTree?_toJson (s : Scored) : ofTree? s.toJson.tree = some (.of s) := by
  simp [ofTree?, Scored.toJson, memberTrees, Tree.member?, ClientEntry.ofTree?_toJson,
    Rating.ofLabel?_label, of]

theorem Rejection.ofTree?_toJson (r : Rejection) : ofTree? r.toJson.tree = some r := by
  have row : (r.row : ℤ).toNat? = some r.row := rfl
  have reasons := Json.mapM_trees Json.text?_tree r.reasons
  rw [List.map_id'] at reasons
  simp [ofTree?, Rejection.toJson, memberTrees, Tree.member?, row, reasons]

theorem OutcomeEntry.ofTree?_toJson (o : Outcome) : ofTree? o.toJson.tree = some (.of o) := by
  have results := Json.mapM_trees ScoredEntry.ofTree?_toJson o.results
  have rejected := Json.mapM_trees Rejection.ofTree?_toJson o.rejected
  rw [List.map_id'] at rejected
  simp [ofTree?, Outcome.toJson, memberTrees, Tree.member?, results, rejected, of]

def Client.AllFinite (c : Client) : Prop :=
  c.income.isFinite ∧ c.debt.isFinite ∧ c.score.isFinite

def Outcome.AllFinite (o : Outcome) : Prop :=
  ∀ s ∈ o.results, s.client.AllFinite

theorem eq_of_finite?_eq {x y : Float} (hx : x.isFinite) (hy : y.isFinite)
    (h : finite? x = finite? y) : x = y := by
  rw [finite?, finite?, if_pos hx, if_pos hy] at h
  exact Option.some.inj h

theorem ClientEntry.eq_of_of_eq {c d : Client} (hc : c.AllFinite) (hd : d.AllFinite)
    (h : ClientEntry.of c = .of d) : c = d := by
  obtain ⟨income, debt, score⟩ := hc
  obtain ⟨income', debt', score'⟩ := hd
  simp only [of, ClientEntry.mk.injEq, Int32.toInt_inj] at h
  obtain ⟨id, name, country, clientType, age, hi, employment, industry, hd, hs⟩ := h
  have same_income := eq_of_finite?_eq income income' hi
  have same_debt := eq_of_finite?_eq debt debt' hd
  have same_score := eq_of_finite?_eq score score' hs
  cases c
  cases d
  simp_all

theorem ScoredEntry.map_of_injective {rs ss : List Scored} (hr : ∀ r ∈ rs, r.client.AllFinite)
    (hs : ∀ s ∈ ss, s.client.AllFinite) (h : rs.map ScoredEntry.of = ss.map .of) : rs = ss := by
  induction rs generalizing ss with
  | nil => exact (List.map_eq_nil_iff.1 h.symm).symm
  | cons r rs ih =>
      cases ss with
      | nil => cases h
      | cons s ss =>
          rw [List.forall_mem_cons] at hr hs
          obtain ⟨head, tail⟩ := List.cons.inj h
          obtain ⟨client, rating⟩ := (ScoredEntry.mk.injEq _ _ _ _).mp head
          have same : r = s :=
            congrArg₂ Scored.mk (ClientEntry.eq_of_of_eq hr.1 hs.1 client) rating
          rw [same, ih hr.2 hs.2 tail]

/-- Outcomes with finite amounts are told apart by what a document tells of them. -/
theorem OutcomeEntry.eq_of_of_eq {o p : Outcome} (ho : o.AllFinite) (hp : p.AllFinite)
    (h : OutcomeEntry.of o = .of p) : o = p := by
  obtain ⟨results, rejected⟩ := (OutcomeEntry.mk.injEq _ _ _ _).mp h
  exact congrArg₂ Outcome.mk (ScoredEntry.map_of_injective ho hp results) rejected

/-- The text is one document. It tells every result and every rejected record in order, with
null in the place of the numbers that are not finite; so batches without such numbers that
print the same are the same. -/
theorem Outcome.document_readable (o p : Outcome) :
    (Json.read o.document).bind OutcomeEntry.ofTree? = some (.of o) ∧
      (o.AllFinite → p.AllFinite → o.document = p.document → o = p) := by
  have reads (o : Outcome) : (Json.read o.document).bind OutcomeEntry.ofTree? = some (.of o) := by
    rw [document, Json.read_pretty, Option.bind_some, OutcomeEntry.ofTree?_toJson]
  refine ⟨reads o, fun ho hp same => OutcomeEntry.eq_of_of_eq ho hp (Option.some.inj ?_)⟩
  rw [← reads o, ← reads p, same]

/-- A client with characters that are escaped and amounts at the ends of the range. -/
def oddClient (zero : Float) : Client where
  id := "a\"\\\n\x01é"
  name := ""
  country := "Greece"
  clientType := "😀"
  age := -1
  income := zero
  employment := "x"
  industry := "y"
  debt := 5e-324
  score := 1e300

def oddOutcome (zero : Float) : Outcome where
  results := [⟨oddClient zero, .bb⟩]
  rejected := [⟨3, "", ["Age 7 is below 18", ""]⟩]

theorem allFinite_oddOutcome {zero : Float} (h : zero.isFinite) : (oddOutcome zero).AllFinite := by
  have debt : (5e-324 : Float).isFinite := by decide +kernel
  have score : (1e300 : Float).isFinite := by decide +kernel
  intro s hs
  obtain rfl := List.mem_singleton.1 hs
  exact ⟨h, debt, score⟩

theorem Outcome.document_readable_negative_zero :
    (Json.read (oddOutcome (-0.0)).document).bind OutcomeEntry.ofTree? =
        some (.of (oddOutcome (-0.0))) ∧
      (oddOutcome (-0.0)).AllFinite ∧ (oddOutcome (-1 * 0)).AllFinite ∧
      oddOutcome (-0.0) = oddOutcome (-1 * 0) := by
  have first : (oddOutcome (-0.0)).AllFinite := allFinite_oddOutcome (by decide +kernel)
  have second : (oddOutcome (-1 * 0)).AllFinite := allFinite_oddOutcome (by decide +kernel)
  have zero : (-0.0 : Float) = -1 * 0 := by decide +kernel
  have document : (oddOutcome (-0.0)).document = (oddOutcome (-1 * 0)).document := by rw [zero]
  obtain ⟨reads, same⟩ := Outcome.document_readable (oddOutcome (-0.0)) (oddOutcome (-1 * 0))
  exact ⟨reads, first, second, same first second document⟩

end CreditRating

import CreditRating.Batch
import Mathlib.Algebra.Order.Ring.Nat

/-!
A batch splits its clients. The valid ones are scored and the others rejected,
each kind in the order of the input, and a row counts both kinds.
-/

namespace CreditRating

def Pipeline.scored (p : Pipeline) (c : Client) : Scored :=
  ⟨{ c with score := score p.engine p.weights c }, .ofScore (score p.engine p.weights c)⟩

def Client.rejection (c : Client) (row : Nat) : Rejection := ⟨row, c.id, c.reasons row⟩

/-- The clients that are not valid, with their rows, the first client of the list in `row`. -/
def invalidFrom (row : Nat) (cs : List Client) : List (Client × Nat) :=
  (cs.zipIdx row).filter fun e => !e.1.isValid

theorem invalidFrom_cons_of_valid {c : Client} (h : c.isValid) (row : Nat) (cs : List Client) :
    invalidFrom row (c :: cs) = invalidFrom (row + 1) cs := by
  rw [invalidFrom, List.zipIdx_cons, List.filter_cons_of_neg, invalidFrom]
  rw [h]
  decide

theorem invalidFrom_cons_of_invalid {c : Client} (h : c.isValid = false) (row : Nat)
    (cs : List Client) : invalidFrom row (c :: cs) = (c, row) :: invalidFrom (row + 1) cs := by
  rw [invalidFrom, List.zipIdx_cons, List.filter_cons_of_pos, invalidFrom]
  rw [h]
  rfl

/-- Every client is valid or has a row among the invalid ones. -/
theorem length_invalidFrom (row : Nat) (cs : List Client) :
    (cs.filter Client.isValid).length + (invalidFrom row cs).length = cs.length := by
  induction cs generalizing row with
  | nil => rfl
  | cons c cs ih =>
      cases h : c.isValid with
      | true =>
          rw [invalidFrom_cons_of_valid h, List.filter_cons_of_pos h, List.length_cons,
            List.length_cons, ← ih (row + 1)]
          omega
      | false =>
          rw [invalidFrom_cons_of_invalid h, List.filter_cons_of_neg (by rw [h]; decide),
            List.length_cons, List.length_cons, ← ih (row + 1)]
          omega

theorem mem_of_mem_invalidFrom {row : Nat} {cs : List Client} {e : Client × Nat}
    (h : e ∈ invalidFrom row cs) : e.1 ∈ cs ∧ e.1.isValid = false := by
  obtain ⟨mem, invalid⟩ := List.mem_filter.1 h
  exact ⟨List.fst_mem_of_mem_zipIdx mem, by simpa using invalid⟩

/-- What valid clients do not add to can be counted over the others. -/
theorem sum_invalidFrom {f : Client → Nat} (h : ∀ c, c.isValid → f c = 0) (row : Nat)
    (cs : List Client) : ((invalidFrom row cs).map fun e => f e.1).sum = (cs.map f).sum := by
  induction cs generalizing row with
  | nil => rfl
  | cons c cs ih =>
      cases hc : c.isValid with
      | true =>
          rw [invalidFrom_cons_of_valid hc, List.map_cons, List.sum_cons, h c hc, Nat.zero_add, ih]
      | false =>
          rw [invalidFrom_cons_of_invalid hc, List.map_cons, List.sum_cons, List.map_cons,
            List.sum_cons, ih]

namespace Pipeline

theorem process_of_valid (p : Pipeline) (row : Nat) {c : Client} (h : c.isValid) :
    p.process row c = .ok (p.scored c) :=
  if_pos h

theorem process_of_invalid (p : Pipeline) (row : Nat) {c : Client} (h : c.isValid = false) :
    p.process row c = .error (c.rejection row) :=
  if_neg (by rw [h]; decide)

theorem scored_processFrom (p : Pipeline) (row : Nat) (cs : List Client) :
    (p.processFrom row cs).filterMap scored? = (cs.filter Client.isValid).map p.scored := by
  induction cs generalizing row with
  | nil => rfl
  | cons c cs ih =>
      cases h : c.isValid with
      | true =>
          rw [processFrom, p.process_of_valid row h, List.filter_cons_of_pos h, List.map_cons, ← ih]
          rfl
      | false =>
          rw [processFrom, p.process_of_invalid row h, List.filterMap_cons_none rfl, ih,
            List.filter_cons_of_neg (by rw [h]; decide)]

/-- The rejections are those of the invalid clients, each with its own row. -/
theorem rejected_processFrom (p : Pipeline) (row : Nat) (cs : List Client) :
    (p.processFrom row cs).filterMap rejection? =
      (invalidFrom row cs).map fun e => e.1.rejection e.2 := by
  induction cs generalizing row with
  | nil => rfl
  | cons c cs ih =>
      cases h : c.isValid with
      | true =>
          rw [processFrom, p.process_of_valid row h, List.filterMap_cons_none rfl, ih,
            invalidFrom_cons_of_valid h]
      | false =>
          rw [processFrom, p.process_of_invalid row h, invalidFrom_cons_of_invalid h,
            List.map_cons, ← ih]
          rfl

theorem ofResults_processAll (p : Pipeline) (cs : List Client) :
    Outcome.ofResults (p.processAll cs) =
      ⟨(cs.filter Client.isValid).map p.scored,
        (invalidFrom 1 cs).map fun e => e.1.rejection e.2⟩ := by
  rw [Outcome.ofResults, processAll, scored_processFrom, rejected_processFrom]

theorem run_of_no_valid (p : Pipeline) {cs : List Client} (h : ∀ c ∈ cs, c.isValid = false) :
    p.run cs = .error ⟨(invalidFrom 1 cs).map fun e => e.1.rejection e.2⟩ := by
  have none : cs.filter Client.isValid = [] :=
    List.filter_eq_nil_iff.2 fun c hc => by rw [h c hc]; decide
  simp only [run, ofResults_processAll, none]
  rfl

theorem run_of_valid (p : Pipeline) {cs : List Client} (h : ∃ c ∈ cs, c.isValid) :
    p.run cs = .ok ⟨(cs.filter Client.isValid).map p.scored,
      (invalidFrom 1 cs).map fun e => e.1.rejection e.2⟩ := by
  obtain ⟨c, hc, valid⟩ := h
  have some : cs.filter Client.isValid ≠ [] :=
    List.ne_nil_of_mem (List.mem_filter.2 ⟨hc, valid⟩)
  simp only [run, ofResults_processAll, List.isEmpty_iff, List.map_eq_nil_iff, if_neg some]

/-- A batch that does not fail has a valid client and results for all of them. -/
theorem of_run_eq_ok (p : Pipeline) {cs : List Client} {o : Outcome} (h : p.run cs = .ok o) :
    (∃ c ∈ cs, c.isValid) ∧ o.results = (cs.filter Client.isValid).map p.scored ∧
      o.rejected = (invalidFrom 1 cs).map fun e => e.1.rejection e.2 := by
  by_cases valid : ∃ c ∈ cs, c.isValid
  · rw [p.run_of_valid valid] at h
    cases h
    exact ⟨valid, rfl, rfl⟩
  · rw [p.run_of_no_valid fun c hc => Bool.eq_false_iff.2 fun v => valid ⟨c, hc, v⟩] at h
    cases h

/-- A batch has a result for each valid client and a rejection for each other one. It fails
with all rejections just if it has no valid client. -/
theorem run_partition (p : Pipeline) (cs : List Client) :
    let results := (cs.filter Client.isValid).map p.scored
    let rejected := ((cs.zipIdx 1).filter fun e => !e.1.isValid).map fun e => e.1.rejection e.2
    results.length + rejected.length = cs.length ∧
      ((∃ c ∈ cs, c.isValid) ↔ p.run cs = .ok ⟨results, rejected⟩) ∧
      ((∀ c ∈ cs, c.isValid = false) ↔ p.run cs = .error ⟨rejected⟩) := by
  intro results rejected
  have fails (h : ∀ c ∈ cs, c.isValid = false) : p.run cs = .error ⟨rejected⟩ :=
    p.run_of_no_valid h
  have scores (h : ∃ c ∈ cs, c.isValid) : p.run cs = .ok ⟨results, rejected⟩ :=
    p.run_of_valid h
  refine ⟨?_, ⟨scores, fun h => ?_⟩, fails, fun h c hc => ?_⟩
  · rw [List.length_map, List.length_map]
    exact length_invalidFrom 1 cs
  · refine Decidable.byContradiction fun none => ?_
    rw [fails fun c hc => Bool.eq_false_iff.2 fun valid => none ⟨c, hc, valid⟩] at h
    cases h
  · refine Bool.eq_false_iff.2 fun valid => ?_
    rw [scores ⟨c, hc, valid⟩] at h
    cases h

end Pipeline
end CreditRating

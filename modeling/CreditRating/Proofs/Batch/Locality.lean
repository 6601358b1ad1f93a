import CreditRating.Proofs.Batch.Partition
import CreditRating.Proofs.Policy.Multipliers
import CreditRating.Proofs.Score.Raising

/-!
One batch under two policies. Which clients are scored does not depend on the policy, and an
entry for a country changes no score but those of the clients from there.
-/

namespace CreditRating

/-- The pipeline of a policy, whether or not it breaks a rule. -/
def Policy.pipeline (p : Policy) : Pipeline := ⟨p.weightTable, p.engine⟩

/-- The two policies weigh the factors alike, and their entries for countries differ at
most for those in the set. -/
structure Policy.AgreeBeyond (S : Set String) (p q : Policy) : Prop where
  weights : p.weightTable = q.weightTable
  entries : ∀ code ∉ S, p.entry? code = q.entry? code

section

variable {p q : Policy} {S : Set String}

/-- What the policies differ in is seen by the step of the country alone. -/
theorem Policy.AgreeBeyond.score_eq (h : p.AgreeBeyond S q) {c : Client} (other : c.country ∉ S) :
    score p.engine p.weightTable c = score q.engine q.weightTable c := by
  have multiplier : p.engine.multiplier? c.country = q.engine.multiplier? c.country := by
    rw [p.multiplier?_engine, q.multiplier?_engine, h.entries c.country other]
  have totals : ownTotal p.engine p.weightTable c = ownTotal q.engine q.weightTable c := by
    rw [ownTotal, ownTotal, p.withoutCountries_engine, q.withoutCountries_engine, h.weights]
  simp only [score, Breakdown.score, unclamped_eq, multiplier, totals]

theorem Policy.AgreeBeyond.scored_eq (h : p.AgreeBeyond S q) {c : Client}
    (other : c.country ∉ S) : p.pipeline.scored c = q.pipeline.scored c := by
  have same : score p.pipeline.engine p.pipeline.weights c =
      score q.pipeline.engine q.pipeline.weights c := h.score_eq other
  rw [Pipeline.scored, Pipeline.scored, same]

end

def Client.SameButScore (c d : Client) : Prop := { c with score := d.score } = d

/-- The results of two runs over the same clients stand side by side. -/
theorem forall₂_scored (p q : Pipeline) {R : Scored → Scored → Prop} {cs : List Client}
    (h : ∀ c ∈ cs, R (p.scored c) (q.scored c)) :
    List.Forall₂ R (cs.map p.scored) (cs.map q.scored) := by
  rw [List.forall₂_map_left_iff, List.forall₂_map_right_iff]
  exact List.forall₂_same.2 h

/-- Two policies reject the same clients of a batch and score the others side by side. Where
they differ only in entries for some countries, the results of all other clients are equal. -/
theorem run_of_two_policies (p q : Policy) (cs : List Client) :
    (∃ rejected, p.pipeline.run cs = .error ⟨rejected⟩ ∧ q.pipeline.run cs = .error ⟨rejected⟩) ∨
    ∃ rs rs' rejected, p.pipeline.run cs = .ok ⟨rs, rejected⟩ ∧
      q.pipeline.run cs = .ok ⟨rs', rejected⟩ ∧
      List.Forall₂ (fun s s' => s.client.SameButScore s'.client) rs rs' ∧
      ∀ S : Set String, p.AgreeBeyond S q →
        List.Forall₂ (fun s s' => s.client.country ∉ S → s = s') rs rs' := by
  by_cases valid : ∃ c ∈ cs, c.isValid
  · refine .inr ⟨_, _, _, p.pipeline.run_of_valid valid, q.pipeline.run_of_valid valid, ?_, ?_⟩
    · exact forall₂_scored p.pipeline q.pipeline fun c _ => rfl
    · intro S agree
      apply forall₂_scored p.pipeline q.pipeline
      intro c _ other
      exact agree.scored_eq other
  · have none : ∀ c ∈ cs, c.isValid = false := by
      intro c hc
      rw [Bool.eq_false_iff]
      exact fun v => valid ⟨c, hc, v⟩
    exact .inl ⟨_, p.pipeline.run_of_no_valid none, q.pipeline.run_of_no_valid none⟩

def quarteringPolicy : Policy where
  weights := none
  countries := some (.ofList [("AT", 0.25)])

theorem agreeBeyond_quarteringPolicy : halvingPolicy.AgreeBeyond {"AT"} quarteringPolicy := by
  refine ⟨by simp [Policy.weightTable, halvingPolicy, quarteringPolicy], ?_⟩
  intro code other
  have other : code ≠ "AT" := other
  simp [Policy.entry?, halvingPolicy, quarteringPolicy, Table.ofList, Table.insertAll,
    Table.get?_insert, other]

/-- A client from the country with the entry, one that is rejected, and one from elsewhere. -/
def mixedBatch : List Client :=
  [steadyClient, { steadyClient with age := 0 }, deductedClient]

/-- The entry changes a score of the batch, and not that of the client from elsewhere. -/
theorem run_of_two_policies_mixedBatch : ∃ rs rs' rejected,
    halvingPolicy.pipeline.run mixedBatch = .ok ⟨rs, rejected⟩ ∧
    quarteringPolicy.pipeline.run mixedBatch = .ok ⟨rs', rejected⟩ ∧
    rs ≠ rs' ∧
    List.Forall₂ (fun s s' => s.client.country ∉ ({"AT"} : Set String) → s = s') rs rs' := by
  have valid : ∃ c ∈ mixedBatch, c.isValid := ⟨steadyClient, .head _, by decide +kernel⟩
  have ran := halvingPolicy.pipeline.run_of_valid valid
  have ran' := quarteringPolicy.pipeline.run_of_valid valid
  have differ : (mixedBatch.filter Client.isValid).map halvingPolicy.pipeline.scored ≠
      (mixedBatch.filter Client.isValid).map quarteringPolicy.pipeline.scored := by
    decide +kernel
  obtain ⟨_, failed, -⟩ | ⟨rs, rs', rejected, ok, ok', -, others⟩ :=
    run_of_two_policies halvingPolicy quarteringPolicy mixedBatch
  · exact absurd (ran.symm.trans failed) nofun
  · have results := congrArg Outcome.results (Except.ok.inj (ran.symm.trans ok))
    have results' := congrArg Outcome.results (Except.ok.inj (ran'.symm.trans ok'))
    refine ⟨rs, rs', rejected, ok, ok', ?_, others _ agreeBeyond_quarteringPolicy⟩
    exact fun same => differ (results.trans (same.trans results'.symm))

end CreditRating

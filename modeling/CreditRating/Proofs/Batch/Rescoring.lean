import CreditRating.Proofs.Batch.Partition
import CreditRating.Proofs.Score.Range

/-!
What a pipeline sees of a client. Six facts decide whether a client is rejected and what
its score is. An old score is none of them, so clients that have been scored are scored
the same when they come again.
-/

namespace CreditRating

/-- The two clients agree in what a pipeline sees of them. -/
structure Client.SameFacts (c d : Client) : Prop where
  country : c.country = d.country
  age : c.age = d.age
  income : c.income = d.income
  employment : c.employment = d.employment
  industry : c.industry = d.industry
  debt : c.debt = d.debt

namespace Client.SameFacts

variable {c d : Client} (h : c.SameFacts d)
include h

theorem violations : c.violations = d.violations := by
  simp only [Client.violations, h.age, h.income, h.employment, h.industry, h.debt]

theorem isValid : c.isValid = d.isValid := by
  simp only [Client.isValid, h.violations]

theorem findings (e : Engine) (weights : Table) :
    CreditRating.findings e weights c = CreditRating.findings e weights d := by
  simp only [CreditRating.findings, Client.debtRatio, h.country, h.age, h.income, h.employment,
    h.industry, h.debt]

theorem explain (e : Engine) (weights : Table) :
    CreditRating.explain e weights c = CreditRating.explain e weights d := by
  simp only [CreditRating.explain, h.findings]

/-- The old score and the labels that scoring does not look at make no difference. -/
theorem score (e : Engine) (weights : Table) :
    CreditRating.score e weights c = CreditRating.score e weights d := by
  simp only [CreditRating.score, h.explain]

end Client.SameFacts

namespace Pipeline

variable (p : Pipeline) {c d : Client}

/-- Scoring changes none of the facts that it goes by. -/
theorem sameFacts_scored (c : Client) : (p.scored c).client.SameFacts c :=
  ⟨rfl, rfl, rfl, rfl, rfl, rfl⟩

theorem explain_scored (c : Client) : p.explain (p.scored c).client = p.explain c :=
  (p.sameFacts_scored c).explain p.engine p.weights

theorem isValid_scored (c : Client) : (p.scored c).client.isValid = c.isValid :=
  (p.sameFacts_scored c).isValid

/-- The second score takes the place of the first, and it is the same one. -/
theorem scored_scored (c : Client) : p.scored (p.scored c).client = p.scored c := by
  have same := (p.sameFacts_scored c).score p.engine p.weights
  rw [scored, same]
  rfl

theorem invalidFrom_of_valid {cs : List Client} (h : ∀ c ∈ cs, c.isValid) (row : ℕ) :
    invalidFrom row cs = [] := by
  induction cs generalizing row with
  | nil => rfl
  | cons c cs ih =>
      rw [invalidFrom_cons_of_valid (h c (.head cs))]
      exact ih (fun d hd => h d (.tail c hd)) (row + 1)

/-- Valid clients whose scores are those they would get are kept as they are. -/
theorem run_of_scored {rs : List Scored} (some : ∃ s, s ∈ rs)
    (valid : ∀ s ∈ rs, s.client.isValid) (kept : ∀ s ∈ rs, p.scored s.client = s) :
    p.run (rs.map (·.client)) = .ok ⟨rs, []⟩ := by
  have all : ∀ c ∈ rs.map (·.client), c.isValid := by simpa using valid
  have scores : (rs.map (·.client)).map p.scored = rs := by
    rw [List.map_map]
    exact (List.map_congr_left kept).trans (List.map_id rs)
  obtain ⟨s, hs⟩ := some
  rw [p.run_of_valid ⟨s.client, List.mem_map_of_mem hs, valid s hs⟩, List.filter_eq_self.2 all,
    scores, invalidFrom_of_valid all]
  rfl

/-- Clients that agree in six facts are rejected for the same reasons or get the same score.
So the steps of a scored client lead to the score it has, and a batch of scored clients is
left as it is when it is scored again. -/
theorem scores_by_facts (p : Pipeline) :
    (∀ (c d : Client) (row row' : ℕ), c.SameFacts d →
      (∃ s s', p.process row c = .ok s ∧ p.process row' d = .ok s' ∧
        s'.client.score = s.client.score ∧ s'.rating = s.rating) ∨
      d.violations = c.violations ∧
        ∃ r r', p.process row c = .error r ∧ p.process row' d = .error r' ∧
          r.reasons = c.violations.map (·.message row) ∧
          r'.reasons = c.violations.map (·.message row')) ∧
    ∀ (cs : List Client) (o : Outcome), p.run cs = .ok o →
      (∀ s ∈ o.results, (p.explain s.client).score = s.client.score ∧
        Rating.ofScore (p.explain s.client).score = s.rating) ∧
      p.run (o.results.map (·.client)) = .ok ⟨o.results, []⟩ := by
  constructor
  · intro c d row row' same
    cases valid : c.isValid with
    | true =>
        have valid' : d.isValid := same.isValid ▸ valid
        have scores := same.score p.engine p.weights
        refine .inl ⟨p.scored c, p.scored d, p.process_of_valid row valid,
          p.process_of_valid row' valid', scores.symm, ?_⟩
        exact congrArg Rating.ofScore scores.symm
    | false =>
        have valid' : d.isValid = false := same.isValid ▸ valid
        refine .inr ⟨same.violations.symm, c.rejection row, d.rejection row',
          p.process_of_invalid row valid, p.process_of_invalid row' valid', rfl, ?_⟩
        exact congrArg (List.map (·.message row')) same.violations.symm
  · intro cs o ran
    obtain ⟨⟨c, hc, valid⟩, results, -⟩ := p.of_run_eq_ok ran
    rw [results]
    constructor
    · intro s hs
      obtain ⟨d, -, rfl⟩ := List.mem_map.1 hs
      rw [p.explain_scored d]
      exact ⟨rfl, rfl⟩
    · apply p.run_of_scored
      · exact ⟨p.scored c, List.mem_map_of_mem (List.mem_filter.2 ⟨hc, valid⟩)⟩
      · intro s hs
        obtain ⟨d, hd, rfl⟩ := List.mem_map.1 hs
        exact (p.isValid_scored d).trans (List.mem_filter.1 hd).2
      · intro s hs
        obtain ⟨d, -, rfl⟩ := List.mem_map.1 hs
        exact p.scored_scored d

/-- Weights whose sum is out of the range, with a multiplier that makes no number of it. -/
def lossyPipeline : Pipeline := ⟨hugeWeights.weightTable, hugeWeights.engine⟩

def relabelledClient : Client where
  __ := steadyClient
  id := ""
  name := "Other Client"
  clientType := "corporate"
  score := 1.0 / 0.0

/-- The labels and the old score leave no trace, even where the score is no number. -/
theorem scores_by_facts_relabelledClient :
    steadyClient.SameFacts relabelledClient ∧ ∃ s s' o,
      lossyPipeline.process 1 steadyClient = .ok s ∧
      lossyPipeline.process 7 relabelledClient = .ok s' ∧
      s'.client.score = s.client.score ∧ s'.rating = s.rating ∧ s.client.score.isNaN ∧
      lossyPipeline.run [{ steadyClient with age := 0 }, relabelledClient] = .ok o ∧
      lossyPipeline.run (o.results.map (·.client)) = .ok ⟨o.results, []⟩ := by
  have same : steadyClient.SameFacts relabelledClient := ⟨rfl, rfl, rfl, rfl, rfl, rfl⟩
  have valid : steadyClient.isValid := by decide +kernel
  have valid' : relabelledClient.isValid := same.isValid ▸ valid
  have lost : (lossyPipeline.scored steadyClient).client.score.isNaN := by decide +kernel
  have some : ∃ c ∈ [{ steadyClient with age := 0 }, relabelledClient], c.isValid :=
    ⟨relabelledClient, by simp, valid'⟩
  have ran := lossyPipeline.run_of_valid some
  obtain ⟨facts, again⟩ := scores_by_facts lossyPipeline
  obtain ⟨-, stable⟩ := again _ _ ran
  obtain ⟨s, s', ok, ok', scores, ratings⟩ | ⟨-, r, r', failed, -⟩ := facts _ _ 1 7 same
  · rw [lossyPipeline.process_of_valid 1 valid] at ok
    cases ok
    exact ⟨same, _, s', _, lossyPipeline.process_of_valid 1 valid, ok', scores, ratings, lost, ran,
      stable⟩
  · rw [lossyPipeline.process_of_valid 1 valid] at failed
    cases failed

end Pipeline
end CreditRating

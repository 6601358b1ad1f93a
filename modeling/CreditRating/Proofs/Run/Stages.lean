import CreditRating.Proofs.Files.Saving
import CreditRating.Run

/-!
The stages of a run and the first of them that fails. Each stage is judged on the
files that the run finds, for the stages before the report change none of them.
-/

namespace CreditRating
namespace Run

variable {α β : Type} {env : Environment} {r : Request} {t t' : FileTree}

/-- The step has the answer on these files, and leaves them alone. -/
def Answers (step : StateM FileTree α) (t : FileTree) (answer : α) : Prop :=
  step.run t = (answer, t)

/-- The job of a request, where all that it names can be read. -/
structure Prepared (env : Environment) (r : Request) (t : FileTree) (j : Job) : Prop where
  input : t.pathExists (.ofString r.input) = true
  configured : Answers (ConfigurationFile.load env.home r.config) t (.ok j.configuration)
  accepted : Pipeline.ofPolicy j.configuration.policy = .ok j.pipeline
  loaded : Answers (ClientFile.load r.input) t (.ok j.clients)

/-- The first stage before the scoring that fails. -/
inductive Unprepared (env : Environment) (r : Request) (t : FileTree) : Failure → Prop
  | noInput (absent : t.pathExists (.ofString r.input) = false) :
      Unprepared env r t (.noInput r.input)
  | badConfiguration {e : ConfigurationError}
      (input : t.pathExists (.ofString r.input) = true)
      (failed : Answers (ConfigurationFile.load env.home r.config) t (.error e)) :
      Unprepared env r t (.badConfiguration e)
  | badPolicy {c : Configuration} {vs : List PolicyViolation}
      (input : t.pathExists (.ofString r.input) = true)
      (configured : Answers (ConfigurationFile.load env.home r.config) t (.ok c))
      (failed : Pipeline.ofPolicy c.policy = .error vs) :
      Unprepared env r t (.badPolicy vs)
  | badClients {c : Configuration} {p : Pipeline} {e : LoadError}
      (input : t.pathExists (.ofString r.input) = true)
      (configured : Answers (ConfigurationFile.load env.home r.config) t (.ok c))
      (accepted : Pipeline.ofPolicy c.policy = .ok p)
      (failed : Answers (ClientFile.load r.input) t (.error e)) :
      Unprepared env r t (.badClients e)

/-- What is on the output channel when an outcome has been shown. -/
inductive Shows (env : Environment) (r : Request) (o : Outcome) : String → Prop
  | table (format : r.format = .table) :
      Shows env r o
        (Terminal.scoreTable env.colors o.results ++ "\n\n" ++ Terminal.summary env.colors o)
  | json (format : r.format = .json) : Shows env r o (o.document ++ "\n")

/-- The step that saves the report of an outcome, in the directory that is asked for, else the
configured one, else the standard one. -/
def saving (env : Environment) (r : Request) (j : Job) (o : Outcome) :
    StateM FileTree (Except ReportError String) :=
  ReportFile.save ((r.outputDir.or j.configuration.outputDir).getD "output") env.reportName
    o.results

theorem saving_eq (env : Environment) (r : Request) (j : Job) (o : Outcome) :
    saving env r j o =
      ReportFile.save (reportDirectory r j.configuration) env.reportName o.results := rfl

/-- What is logged before the outcome is shown. -/
def jobLog (env : Environment) (r : Request) (j : Job) : List Notice :=
  logged env r (loadedEvent r.input j.clients :: j.pipeline.events j.clients)

/-- The failure of the first stage that fails, with what is on the output channel and what has gone
to the error channel by then. -/
inductive FirstFailure (env : Environment) (r : Request) (t : FileTree) :
    String → List Notice → Failure → Prop
  | unprepared {f : Failure} (failed : Unprepared env r t f) : FirstFailure env r t "" [] f
  | noValidEntries {j : Job} {f : NoValidEntries} (prepared : Prepared env r t j)
      (failed : j.pipeline.run j.clients = .error f) :
      FirstFailure env r t "" (jobLog env r j) (.noValidEntries f)
  | noReport {j : Job} {o : Outcome} {out : String} {e : ReportError} {t' : FileTree}
      (prepared : Prepared env r t j) (ran : j.pipeline.run j.clients = .ok o)
      (shows : Shows env r o out) (failed : (saving env r j o).run t = (.error e, t')) :
      FirstFailure env r t out
        (jobLog env r j ++ explanations env r j.pipeline o ++ rejectionNotices r o) (.noReport e)

theorem shows_shown (env : Environment) (r : Request) (o : Outcome) :
    Shows env r o (shown env r o) := by
  rw [shown]
  split
  · next format => exact .table format
  · next format => exact .json format

theorem Shows.eq_shown {o : Outcome} {out : String} (h : Shows env r o out) :
    out = shown env r o := by
  cases h with
  | table format | json format => rw [shown, format]

def Reads (step : StateM FileTree α) : Prop :=
  ∀ t, ∃ x, Answers step t x

theorem Answers.bind {step : StateM FileTree α} {f : α → StateM FileTree β} {x : α} {y : β}
    (h : Answers step t x) (h' : Answers (f x) t y) : Answers (step >>= f) t y := by
  rw [Answers, StateT.run_bind, h]
  exact h'

theorem Reads.bind {step : StateM FileTree α} {f : α → StateM FileTree β} (h : Reads step)
    (h' : ∀ x, Reads (f x)) : Reads (step >>= f) := by
  intro t
  obtain ⟨x, first⟩ := h t
  obtain ⟨y, rest⟩ := h' x t
  exact ⟨y, first.bind rest⟩

theorem reads_pure (x : α) : Reads (pure x) :=
  fun _ => ⟨x, rfl⟩

theorem reads_pathExists (p : Path) : Reads (FileStore.pathExists p) :=
  fun t => ⟨t.pathExists p, rfl⟩

theorem reads_read (p : Path) : Reads (FileStore.read p) :=
  fun t => ⟨t.read p, rfl⟩

theorem reads_readConfiguration (path : String) : Reads (ConfigurationFile.read path) := by
  refine (reads_read _).bind ?_
  intro answer
  split <;> exact reads_pure _

/-- A configuration is looked for without any change to the files. -/
theorem reads_loadConfiguration (home given : Option String) :
    Reads (ConfigurationFile.load home given) := by
  unfold ConfigurationFile.load
  split
  · refine (reads_pathExists _).bind ?_
    intro there
    split
    · exact reads_readConfiguration _
    · exact reads_pure _
  · split
    · refine (reads_pathExists _).bind ?_
      intro there
      split
      · exact reads_readConfiguration _
      · exact reads_pure _
    · exact reads_pure _

theorem reads_loadClients (path : String) : Reads (ClientFile.load path) := by
  refine (reads_read _).bind ?_
  intro answer
  split <;> exact reads_pure _

/-- Either all that a request names can be read, or there is a first stage that fails. -/
theorem prepared_or_unprepared (env : Environment) (r : Request) (t : FileTree) :
    (∃ j, Prepared env r t j) ∨ ∃ f, Unprepared env r t f := by
  by_cases input : t.pathExists (.ofString r.input) = true
  · obtain ⟨configuration, configured⟩ := reads_loadConfiguration env.home r.config t
    cases configuration with
    | error e => exact .inr ⟨_, .badConfiguration input configured⟩
    | ok c =>
        cases accepted : Pipeline.ofPolicy c.policy with
        | error vs => exact .inr ⟨_, .badPolicy input configured accepted⟩
        | ok p =>
            obtain ⟨clients, loaded⟩ := reads_loadClients r.input t
            cases clients with
            | error e => exact .inr ⟨_, .badClients input configured accepted loaded⟩
            | ok cs => exact .inl ⟨⟨c, p, cs⟩, input, configured, accepted, loaded⟩
  · exact .inr ⟨_, .noInput (Bool.eq_false_iff.2 input)⟩

theorem answers_pathExists {p : Path} {b : Bool} (h : t.pathExists p = b) :
    Answers (FileStore.pathExists p) t b := by
  rw [← h]
  rfl

/-- The stages before the scoring give the job. -/
theorem Prepared.answers {j : Job} (h : Prepared env r t j) :
    Answers (prepare env.home r) t (.ok j) := by
  refine (answers_pathExists h.input).bind (h.configured.bind ?_)
  dsimp only
  rw [h.accepted]
  exact h.loaded.bind rfl

/-- The stages before the scoring give the failure of the first one that fails. -/
theorem Unprepared.answers {f : Failure} (h : Unprepared env r t f) :
    Answers (prepare env.home r) t (.error f) := by
  cases h with
  | noInput absent => exact (answers_pathExists absent).bind rfl
  | badConfiguration input failed =>
      exact (answers_pathExists input).bind (failed.bind rfl)
  | badPolicy input configured failed =>
      refine (answers_pathExists input).bind (configured.bind ?_)
      dsimp only
      rw [failed]
      rfl
  | badClients input configured accepted failed =>
      refine (answers_pathExists input).bind (configured.bind ?_)
      dsimp only
      rw [accepted]
      exact failed.bind rfl

end Run
end CreditRating

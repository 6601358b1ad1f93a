import CreditRating.Proofs.Batch.Partition
import CreditRating.Proofs.Run.Messages
import CreditRating.Proofs.Run.Stages

/-!
What a scoring run keeps and leaves behind. A run that fails leaves all files as
they were, and one that does not adds the report and nothing else.
-/

namespace CreditRating

open FileTree

namespace Run

variable {env : Environment} {r : Request} {t t' : FileTree}

/-- The report is named at the end, where the format has its place for messages. -/
def Closes (format : OutputFormat) (shown path : String) (w : Transcript) : Prop :=
  match format with
  | .table => w.out = shown ++ "Credit scoring complete. Output written to " ++ path ++ "\n"
  | .json => w.out = shown ∧ ∃ earlier : List Notice,
      w.notices = earlier ++ [.text ("Credit scoring complete. Output written to " ++ path)] ∧
      ∀ time elapsed, w.errorText time elapsed =
        String.join (earlier.map fun n => n.line time elapsed ++ "\n") ++
          "Credit scoring complete. Output written to " ++ path ++ "\n"

theorem append_closingLine (shown path : String) :
    shown ++ "Credit scoring complete. Output written to " ++ path = shown ++ closingLine path :=
  String.append_assoc

theorem closes_table (shown path : String) (code : ℕ) (notices : List Notice) :
    Closes .table shown path ⟨code, shown ++ closingLine path ++ "\n", notices⟩ :=
  congrArg (· ++ "\n") (append_closingLine shown path).symm

theorem closes_json (shown path : String) (code : ℕ) (notices : List Notice) :
    Closes .json shown path ⟨code, shown, notices ++ [.text (closingLine path)]⟩ := by
  refine ⟨rfl, notices, rfl, fun time elapsed => ?_⟩
  rw [append_closingLine, Transcript.errorText, List.map_append, String.join_append,
    String.append_assoc]
  refine congrArg (_ ++ ·) ?_
  rw [List.map_singleton, String.join_cons, String.join_nil, String.append_empty]
  rfl

theorem run_score_of_prepared {j : Job} {o : Outcome} (prepared : Prepared env r t j)
    (ran : j.pipeline.run j.clients = .ok o) :
    (score env r : StateM FileTree Transcript).run t =
      (deliver env r j (jobLog env r j) o : StateM FileTree Transcript).run t := by
  rw [score, StateT.run_bind, prepared.answers]
  simp only [bind, ran]
  rfl

theorem run_score_of_noValidEntries {j : Job} {f : NoValidEntries} (prepared : Prepared env r t j)
    (ran : j.pipeline.run j.clients = .error f) :
    (score env r : StateM FileTree Transcript).run t =
      (.failed "" (jobLog env r j) (.noValidEntries f), t) := by
  rw [score, StateT.run_bind, prepared.answers]
  simp only [bind, ran]
  rfl

section

variable {j : Job} {o : Outcome} (log : List Notice)

/-- A report that is not saved is told after all that the run has shown. -/
theorem run_deliver_of_unsaved {e : ReportError}
    (failed : (saving env r j o).run t = (.error e, t')) :
    (deliver env r j log o : StateM FileTree Transcript).run t =
      (.failed (shown env r o) (log ++ explanations env r j.pipeline o ++ rejectionNotices r o)
        (.noReport e), t') := by
  rw [saving_eq] at failed
  rw [deliver, StateT.run_bind, failed]
  rfl

theorem run_deliver_of_saved {path : String}
    (saved : (saving env r j o).run t = (.ok path, t')) :
    ∃ w, (deliver env r j log o : StateM FileTree Transcript).run t = (w, t') ∧ w.code = 0 ∧
      Closes r.format (shown env r o) path w ∧
      w.notices = log ++ explanations env r j.pipeline o ++ rejectionNotices r o ++
        logged env r [ReportFile.writtenEvent path o.results.length] ++ totalNotices r o ++
        (match r.format with
          | .table => []
          | .json => [.text (closingLine path)]) := by
  rw [saving_eq] at saved
  rw [deliver, StateT.run_bind, saved]
  dsimp only
  cases format : r.format with
  | table => exact ⟨_, rfl, rfl, closes_table _ _ _ _, (List.append_nil _).symm⟩
  | json => exact ⟨_, rfl, rfl, closes_json _ _ _ _, rfl⟩

end

/-- A run that fails tells its first failure after what has been logged, and changes no file. -/
theorem run_score_of_firstFailure {out : String} {log : List Notice} {f : Failure}
    (h : FirstFailure env r t out log f) :
    ∃ t', (score env r : StateM FileTree Transcript).run t = (.failed out log f, t') ∧
      SameFiles t t' := by
  have unchanged := (Grown.refl t).sameFiles
  cases h with
  | unprepared failed => exact ⟨t, failed.answers.bind rfl, unchanged⟩
  | noValidEntries prepared failed =>
      exact ⟨t, run_score_of_noValidEntries prepared failed, unchanged⟩
  | @noReport j o out e t' prepared ran shows failed =>
      refine ⟨t', ?_, ReportFile.sameFiles_of_save_error failed⟩
      rw [run_score_of_prepared prepared ran, run_deliver_of_unsaved _ failed, shows.eq_shown]

/-- The run of a request ends as its first failure says, if it has one. -/
theorem failed_of_firstFailure {w : Transcript} {out : String} {log : List Notice} {f : Failure}
    (ended : (score env r : StateM FileTree Transcript).run t = (w, t'))
    (h : FirstFailure env r t out log f) :
    SameFiles t t' ∧ w = .failed out log f := by
  obtain ⟨t'', fails, same⟩ := run_score_of_firstFailure h
  rw [ended] at fails
  cases fails
  exact ⟨same, rfl⟩

/-- A run whose report is saved succeeds and names it. -/
theorem score_of_saved {j : Job} {o : Outcome} {path : String} (prepared : Prepared env r t j)
    (ran : j.pipeline.run j.clients = .ok o) (saved : (saving env r j o).run t = (.ok path, t')) :
    ∃ w, (score env r : StateM FileTree Transcript).run t = (w, t') ∧ w.code = 0 ∧
      Closes r.format (shown env r o) path w := by
  obtain ⟨w, ended, code, closes, -⟩ := run_deliver_of_saved (jobLog env r j) saved
  exact ⟨w, (run_score_of_prepared prepared ran).trans ended, code, closes⟩

/-- A run has a first failure, or its report is saved. -/
theorem score_cases (env : Environment) (r : Request) (t : FileTree) :
    (∃ out log f, FirstFailure env r t out log f) ∨
      ∃ j o path t', Prepared env r t j ∧ j.pipeline.run j.clients = .ok o ∧
        (saving env r j o).run t = (.ok path, t') := by
  obtain ⟨j, prepared⟩ | ⟨f, failed⟩ := prepared_or_unprepared env r t
  · cases ran : j.pipeline.run j.clients with
    | error f => exact .inl ⟨_, _, _, .noValidEntries prepared ran⟩
    | ok o =>
        cases saved : (saving env r j o).run t with
        | mk answer t' =>
            cases answer with
            | error e => exact .inl ⟨_, _, _, .noReport prepared ran (shows_shown env r o) saved⟩
            | ok path => exact .inr ⟨j, o, path, t', prepared, ran, saved⟩
  · exact .inl ⟨_, _, _, .unprepared failed⟩

end Run

open Run

/-- A report without results is never asked for. -/
theorem results_of_run {p : Pipeline} {cs : List Client} {o : Outcome} (h : p.run cs = .ok o) :
    o.results.isEmpty = false := by
  rw [Pipeline.run] at h
  split at h
  · cases h
  · next some =>
      cases h
      exact Bool.eq_false_iff.2 some

def oneClientTree : FileTree where
  entries := [(["c.csv"], .file (Utf8.encode "id\nC1,,AT,,30,0,x,y,0\n".toList))]
  workingDirectory := []

def oneClientJob : Job where
  configuration := .standard
  pipeline := ⟨Weights.standard, Configuration.standard.policy.engine⟩
  clients := [⟨"C1", "", "AT", "", 30, 0.0, "x", "y", 0.0, 0.0⟩]

def oneClientRequest : Request := ⟨"c.csv", none, none, false, .json, false⟩

def januaryRun : Environment where
  home := none
  logFilter := none
  colors := .off
  reportName := Report.fileName ⟨2024, 1, 31, 9, 15, 0⟩ 482913

/-- The job where no configuration is named or at home. -/
theorem prepared_standard {bs : List UInt8} {cs : List Client} (unnamed : r.config = none)
    (homeless : env.home = none) (input : t.pathExists (.ofString r.input) = true)
    (content : t.read (.ofString r.input) = .ok bs) (clients : ClientFile.parse bs = .ok cs) :
    Prepared env r t ⟨.standard, ⟨Weights.standard, Configuration.standard.policy.engine⟩, cs⟩ := by
  refine ⟨input, ?_, rfl, ?_⟩
  · rw [unnamed, homeless]
    rfl
  · rw [← clients]
    refine Answers.bind (x := t.read (.ofString r.input)) rfl ?_
    rw [content]
    rfl

theorem prepared_oneClientJob :
    Prepared januaryRun oneClientRequest oneClientTree oneClientJob := by
  have content : oneClientTree.read (.ofString oneClientRequest.input) =
      .ok (Utf8.encode "id\nC1,,AT,,30,0,x,y,0\n".toList) := by decide +kernel
  have clients : ClientFile.parse (Utf8.encode "id\nC1,,AT,,30,0,x,y,0\n".toList) =
      .ok oneClientJob.clients := by decide +kernel
  exact prepared_standard rfl rfl (by decide +kernel) content clients

theorem exists_saved_oneClientJob :
    ∃ o path, oneClientJob.pipeline.run oneClientJob.clients = .ok o ∧
      ((saving januaryRun oneClientRequest oneClientJob o).run oneClientTree).1 = .ok path := by
  have valid : ∃ c ∈ oneClientJob.clients, c.isValid := ⟨_, .head _, by decide +kernel⟩
  have ran := oneClientJob.pipeline.run_of_valid valid
  refine ⟨_, Path.join ReportFile.standardDirectory januaryRun.reportName, ran, ?_⟩
  rw [saving, ReportFile.run_save, if_neg]
  · rfl
  · rw [results_of_run ran]
    nofun

end CreditRating

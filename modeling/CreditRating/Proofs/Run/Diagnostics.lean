import CreditRating.Proofs.Files.Naming
import CreditRating.Proofs.Run.Contract

/-!
Diagnostics beside the results of a run. What the log filter, the steps of the scores and the
verbose lists add are notices alone: the exit code, the output channel and the report are the
same without them. A report of another time has another name, but the same content.
-/

namespace CreditRating

open FileTree

def Transcript.answer (w : Transcript) : Nat × String := (w.code, w.out)

def Request.watched (r : Request) (explain verbose : Bool) : Request :=
  { r with explain := explain, verbose := verbose }

/-- The environment with another log filter, at a time with another name for the report. -/
def Environment.watched (env : Environment) (filter : Option String) (name : String) :
    Environment :=
  { env with logFilter := filter, reportName := name }

namespace Run

section

variable {m : Type → Type} [Monad m] [LawfulMonad m] [FileStore m] (env : Environment)
  (r : Request) (filter : Option String) (explain verbose : Bool)

theorem answer_deliver (j : Job) (log log' : List Notice) (o : Outcome) :
    Transcript.answer <$> (deliver (env.watched filter env.reportName) (r.watched explain verbose)
        j log' o : m Transcript) =
      Transcript.answer <$> (deliver env r j log o : m Transcript) := by
  simp only [deliver, map_bind]
  refine bind_congr ?_
  intro saved
  cases saved with
  | error e =>
      simp only [map_pure]
      rfl
  | ok path =>
      have format : (r.watched explain verbose).format = r.format := rfl
      dsimp only
      rw [format]
      cases r.format with
      | table | json =>
          simp only [map_pure]
          rfl

/-- In any place with files the answer is the same, if the report has the same name. -/
theorem answer_score :
    Transcript.answer <$> (score (env.watched filter env.reportName) (r.watched explain verbose) :
        m Transcript) =
      Transcript.answer <$> (score env r : m Transcript) := by
  simp only [score, map_bind]
  refine bind_congr ?_
  intro prepared
  cases prepared with
  | error f => simp only [map_pure]
  | ok j =>
      dsimp only
      cases j.pipeline.run j.clients with
      | error f =>
          simp only [map_pure]
          rfl
      | ok o => exact answer_deliver env r filter explain verbose j _ _ o

end

variable {env : Environment} {r : Request} {t u u' : FileTree} {w w' : Transcript}
  {filter : Option String} {name : String} {explain verbose : Bool}

/-- Both names are new to the files, wherever the report is to be written. -/
def NewNames (env : Environment) (r : Request) (t : FileTree) (name : String) : Prop :=
  ∀ j, Prepared env r t j → t.IsNew (reportDirectory r j.configuration) env.reportName ∧
    t.IsNew (reportDirectory r j.configuration) name

theorem Prepared.watched {j : Job} (h : Prepared env r t j) :
    Prepared (env.watched filter name) (r.watched explain verbose) t j :=
  ⟨h.input, h.configured, h.accepted, h.loaded⟩

theorem Unprepared.watched {f : Failure} (h : Unprepared env r t f) :
    Unprepared (env.watched filter name) (r.watched explain verbose) t f := by
  cases h with
  | noInput absent => exact .noInput absent
  | badConfiguration input failed => exact .badConfiguration input failed
  | badPolicy input configured failed => exact .badPolicy input configured failed
  | badClients input configured accepted failed =>
      exact .badClients input configured accepted failed

theorem saved_watched {j : Job} {o : Outcome} (new : NewNames env r t name)
    (prepared : Prepared env r t j) (ran : j.pipeline.run j.clients = .ok o) :
    (∃ path u, (saving (env.watched filter name) (r.watched explain verbose) j o).run t =
        (.ok path, u)) ↔
      ∃ path u, (saving env r j o).run t = (.ok path, u) := by
  obtain ⟨here, there⟩ := new j prepared
  have some := results_of_run ran
  exact (ReportFile.saves_iff_opens there some).trans (ReportFile.saves_iff_opens here some).symm

theorem Shows.watched {o : Outcome} {out : String} (h : Shows env r o out) :
    Shows (env.watched filter name) (r.watched explain verbose) o out := by
  cases h with
  | table format => exact .table format
  | json format => exact .json format

/-- Only a failure to write the report may be told in other words. -/
theorem FirstFailure.watched {out : String} {log : List Notice} {f : Failure}
    (new : NewNames env r t name) (h : FirstFailure env r t out log f) : ∃ log' f',
      FirstFailure (env.watched filter name) (r.watched explain verbose) t out log' f' := by
  cases h with
  | unprepared failed => exact ⟨_, _, .unprepared failed.watched⟩
  | noValidEntries prepared failed => exact ⟨_, _, .noValidEntries prepared.watched failed⟩
  | @noReport j o out e t' prepared ran shows failed =>
      cases saved : (saving (env.watched filter name) (r.watched explain verbose) j o).run t with
      | mk answer u =>
          cases answer with
          | error e' => exact ⟨_, _, .noReport prepared.watched ran shows.watched saved⟩
          | ok path =>
              obtain ⟨path', u', saved'⟩ := (saved_watched new prepared ran).1 ⟨path, u, saved⟩
              rw [failed] at saved'
              cases saved'

/-- Both runs fail and have shown the same, or both write the same report and name it. -/
def SameButName (t : FileTree) (format : OutputFormat) (name name' : String) (w : Transcript)
    (u : FileTree) (w' : Transcript) (u' : FileTree) : Prop :=
  (w.code = 1 ∧ w'.code = 1 ∧ w'.out = w.out ∧ SameFiles t u ∧ SameFiles t u') ∨
  (w.code = 0 ∧ w'.code = 0 ∧ ∃ shown directory content,
    Closes format shown (Path.join directory name) w ∧
    Closes format shown (Path.join directory name') w' ∧
    AddsFile t u (.ofString directory) name content ∧
    AddsFile t u' (.ofString directory) name' content)

/-- Where both names are new the runs fail together or save the same report. -/
theorem sameButName_of_newNames (new : NewNames env r t name)
    (ended : (score env r : StateM FileTree Transcript).run t = (w, u))
    (ended' : (score (env.watched filter name) (r.watched explain verbose) :
      StateM FileTree Transcript).run t = (w', u')) :
    SameButName t r.format env.reportName name w u w' u' := by
  obtain ⟨out, log, f, first⟩ | ⟨j, o, path, v, prepared, ran, saved⟩ := score_cases env r t
  · obtain ⟨log', f', first'⟩ : ∃ log' f', FirstFailure (env.watched filter name)
        (r.watched explain verbose) t out log' f' := first.watched new
    obtain ⟨same, rfl⟩ := failed_of_firstFailure ended first
    obtain ⟨same', rfl⟩ := failed_of_firstFailure ended' first'
    exact .inl ⟨rfl, rfl, rfl, same, same'⟩
  · obtain ⟨here, there⟩ := new j prepared
    obtain ⟨path', v', saved'⟩ := (saved_watched new prepared ran).2 ⟨path, v, saved⟩
    obtain ⟨x, run, code, closes⟩ := score_of_saved prepared ran saved
    obtain ⟨x', run', code', closes'⟩ := score_of_saved prepared.watched ran saved'
    obtain ⟨rfl, adds⟩ := ReportFile.adds_of_save_ok here.plain here.lacks.absent saved
    obtain ⟨rfl, adds'⟩ := ReportFile.adds_of_save_ok there.plain there.lacks.absent saved'
    cases ended.symm.trans run
    cases ended'.symm.trans run'
    exact .inr ⟨code, code', _, _, _, closes, closes', adds, adds'⟩

/-- The output channel of a successful run has the document and a line end. -/
theorem out_of_json (format : r.format = .json)
    (ended : (score env r : StateM FileTree Transcript).run t = (w, u)) (code : w.code = 0) :
    ∃ j o, Prepared env r t j ∧ j.pipeline.run j.clients = .ok o ∧ w.out = o.document ++ "\n" := by
  obtain ⟨out, log, f, first⟩ | ⟨j, o, path, v, prepared, ran, saved⟩ := score_cases env r t
  · obtain ⟨-, rfl⟩ := failed_of_firstFailure ended first
    cases code
  · obtain ⟨x, run, -, closes⟩ := score_of_saved prepared ran saved
    cases ended.symm.trans run
    simp only [Closes, shown, format] at closes
    exact ⟨j, o, prepared, ran, closes.1⟩

end Run

open Run

/-- Two runs over the same files for the same task, however each is watched. -/
theorem run_of_diagnostics (env : Environment) (r : Request) (t : FileTree)
    (arguments arguments' : List String) (filter : Option String) (name : String)
    (explain verbose : Bool) (asked : CommandLine.parse arguments = .score r)
    (asked' : CommandLine.parse arguments' = .score (r.watched explain verbose)) :
    ∃ w u w' u',
      (run env arguments : StateM FileTree Transcript).run t = (w, u) ∧
      (run (env.watched filter name) arguments' : StateM FileTree Transcript).run t = (w', u') ∧
      (name = env.reportName → w'.code = w.code ∧ w'.out = w.out ∧ u' = u) ∧
      (NewNames env r t name → SameButName t r.format env.reportName name w u w' u') ∧
      (r.format = .json → w.code = 0 → ∃ j o, Prepared env r t j ∧
        j.pipeline.run j.clients = .ok o ∧ w.out = o.document ++ "\n") := by
  simp only [run, asked, asked']
  obtain ⟨w, u, ended⟩ : ∃ w u, (Run.score env r : StateM FileTree Transcript).run t = (w, u) :=
    ⟨_, _, rfl⟩
  obtain ⟨w', u', ended'⟩ : ∃ w' u',
      (Run.score (env.watched filter name) (r.watched explain verbose) :
        StateM FileTree Transcript).run t = (w', u') := ⟨_, _, rfl⟩
  refine ⟨w, u, w', u', ended, ended', ?_, ?_, ?_⟩
  · rintro rfl
    have same := congrArg (StateT.run · t)
      (answer_score (m := StateM FileTree) env r filter explain verbose)
    simp only [StateT.run_map, ended, ended'] at same
    obtain ⟨answer, trees⟩ := Prod.mk.inj (show (w'.answer, u') = (w.answer, u) from same)
    exact ⟨congrArg Prod.fst answer, congrArg Prod.snd answer, trees⟩
  · exact fun new => sameButName_of_newNames new ended ended'
  · exact fun format => out_of_json format ended

theorem isNew_of_oneClientTree {name : String}
    (stamped : ∃ m number, name = Report.fileName m number) (writable : Path.isWritable name)
    (other : name ≠ "c.csv") (outside : name ≠ "output") :
    oneClientTree.IsNew "output" name := by
  refine ⟨stamped, writable, ⟨?_, List.not_mem_nil⟩, ?_⟩
  · intro l
    have different : name :: l ≠ ["c.csv"] := by simp [other]
    simp [FileTree.get?, oneClientTree, List.lookup_cons, beq_eq_false_iff_ne.2 different]
  · have names : (Path.ofString "output").names = ["output"] := by decide
    simp [names, outside]

def februaryName : String := Report.fileName ⟨2024, 2, 1, 0, 0, 0⟩ 7

theorem newNames_oneClientTree :
    NewNames januaryRun oneClientRequest oneClientTree februaryName := by
  intro j prepared
  have configured := prepared.configured.symm.trans prepared_oneClientJob.configured
  have standard : j.configuration = .standard := Except.ok.inj (congrArg Prod.fst configured)
  have directory : reportDirectory oneClientRequest j.configuration = "output" := by
    rw [standard]
    rfl
  rw [directory]
  constructor <;> apply isNew_of_oneClientTree ⟨_, _, rfl⟩ <;> decide +kernel

/-- A run on this file shows the same and saves the same with all diagnostics a month later. -/
theorem run_of_diagnostics_oneClientJob : ∃ w u w' u',
    (run januaryRun ["c.csv", "--format=json"] : StateM FileTree Transcript).run oneClientTree =
      (w, u) ∧
    (run (januaryRun.watched (some "debug") februaryName)
        ["--explain", "-v", "c.csv", "--format=json"] : StateM FileTree Transcript).run
      oneClientTree = (w', u') ∧
    w.code = 0 ∧ w'.code = 0 ∧ w'.out = w.out ∧
    ∃ directory content, AddsFile oneClientTree u directory januaryRun.reportName content ∧
      AddsFile oneClientTree u' directory februaryName content := by
  have asked : CommandLine.parse ["c.csv", "--format=json"] = .score oneClientRequest := by
    decide +kernel
  have asked' : CommandLine.parse ["--explain", "-v", "c.csv", "--format=json"] =
      .score (oneClientRequest.watched true true) := by decide +kernel
  obtain ⟨w, u, w', u', ran, ran', -, new, -⟩ := run_of_diagnostics januaryRun _ oneClientTree _ _
    (some "debug") februaryName true true asked asked'
  have code : w.code = 0 := by
    obtain ⟨o, path, scored, saved⟩ := exists_saved_oneClientJob
    obtain ⟨x, ended, code, -⟩ := score_of_saved prepared_oneClientJob scored (Prod.ext saved rfl)
    rw [run, asked] at ran
    cases ran.symm.trans ended
    exact code
  obtain ⟨failed, -⟩ | ⟨-, code', shown, directory, content, closes, closes', adds, adds'⟩ :=
    new newNames_oneClientTree
  · rw [code] at failed
    cases failed
  · exact ⟨w, u, w', u', ran, ran', code, code', closes'.1.trans closes.1.symm, _, content, adds,
      adds'⟩

end CreditRating

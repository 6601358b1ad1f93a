import CreditRating.Proofs.Run.Contract
import CreditRating.Proofs.Terminal.Lines

/-!
The warnings of a run. Under the standard filter nothing is logged but what is wrong with the
clients that are rejected, in the order of the input, and each of them has a line at least. The
error channel begins with these lines, whether the run succeeds or not.
-/

namespace CreditRating

namespace Text

def isControl (c : Char) : Bool := c.toNat < 0x20 || (0x7f ≤ c.toNat && c.toNat < 0xa0)

def ControlFree (s : String) : Prop := ∀ c ∈ s.toList, isControl c = false

instance (s : String) : Decidable (ControlFree s) := List.decidableBAll _ s.toList

end Text

namespace Log

def Event.isWarning (e : Event) : Bool := e.level.rank ≤ Level.warn.rank

/-- What the standard filter says: warnings and errors of the program, from all of its parts. -/
def standardDirective : Directive := ⟨"credit_rater", false, none, some .warn⟩

theorem choose_standard : Filter.choose none false = [standardDirective] := by decide +kernel

theorem standardDirective_appliesTo (e : Event) : standardDirective.appliesTo e = true := by
  have own : standardDirective.target.toList.isPrefixOf e.origin.target.toList = true := by
    cases e.origin <;> decide
  rw [Directive.appliesTo, own]
  rfl

theorem allows_standard : (Filter.choose none false).allows = Event.isWarning := by
  funext e
  have kept : [standardDirective].filter (·.appliesTo e) = [standardDirective] :=
    List.filter_cons_of_pos (standardDirective_appliesTo e)
  rw [choose_standard, Filter.allows, Filter.threshold, kept]
  rfl

end Log

/-- The line of a warning about a client, plain or with the time faint, the level yellow and the
name of the field slanted. -/
def warningLine (colors : Terminal.Colors) (time message id : String) : String :=
  match colors with
  | .off => time ++ "  WARN " ++ message ++ " client=" ++ id
  | .on => "\x1b[2m" ++ time ++ "\x1b[0m \x1b[33m WARN\x1b[0m " ++ message ++
      " \x1b[3mclient\x1b[0m\x1b[2m=\x1b[0m" ++ id

def rowName : Terminal.Colors → String
  | .off => " row="
  | .on => " \x1b[3mrow\x1b[0m\x1b[2m=\x1b[0m"

/-- The lines about a client that is rejected in a row: one for each reason, and one to say that the
client is left out. -/
def Client.warningLines (colors : Terminal.Colors) (time : String) (c : Client) (row : Nat) :
    List String :=
  (c.reasons row).map (warningLine colors time · c.id) ++
    [warningLine colors time "Skipping invalid client entry" c.id ++ rowName colors ++ toString row]

def Client.warnings (c : Client) (row : Nat) : List Log.Event :=
  resultEvents (.error (c.rejection row))

theorem warnings_scored (s : Scored) : (resultEvents (.ok s)).filter Log.Event.isWarning = [] :=
  rfl

theorem warnings_rejection (c : Client) (row : Nat) :
    (c.warnings row).filter Log.Event.isWarning = c.warnings row := by
  refine List.filter_eq_self.2 fun e he => ?_
  rw [Client.warnings, resultEvents, List.mem_append, List.mem_map, List.mem_singleton] at he
  obtain ⟨reason, -, rfl⟩ | rfl := he
  · rfl
  · rfl

def fieldText (colors : Terminal.Colors) (f : String × String) : String :=
  " " ++ colors.paint Terminal.italic f.1 ++ colors.paint Terminal.dimmed "=" ++ f.2

theorem fieldText_row (colors : Terminal.Colors) (row : Nat) :
    fieldText colors ("row", toString row) = rowName colors ++ toString row := by
  refine congrArg (· ++ toString row) ?_
  dsimp only
  cases colors <;> decide

theorem line_warning (colors : Terminal.Colors) (origin : Log.Origin) (time message id : String)
    (fields : List (String × String)) :
    Log.Event.line colors time ⟨origin, .warn, message, ("client", id) :: fields⟩ =
      warningLine colors time message id ++ String.join (fields.map (fieldText colors)) := by
  rw [Log.Event.line, List.map_cons, String.join_cons, ← String.append_assoc]
  refine congrArg (· ++ _) ?_
  cases colors with
  | off =>
      have label : "  WARN " = " " ++ Text.alignRight 5 Log.Level.warn.label ++ " " := by decide
      have client : " client=" = " " ++ "client" ++ "=" := by decide
      simp only [Terminal.Colors.paint, warningLine, label, client, String.append_assoc]
  | on =>
      have faint : "\x1b[2m" = Terminal.escape 2 := by decide
      have label : "\x1b[0m \x1b[33m WARN\x1b[0m " = Terminal.escape 0 ++ " " ++
          Log.Level.warn.style.paint (Text.alignRight 5 Log.Level.warn.label) ++ " " := by decide
      have client : " \x1b[3mclient\x1b[0m\x1b[2m=\x1b[0m" =
          " " ++ Terminal.italic.paint "client" ++ Terminal.dimmed.paint "=" := by decide
      have time : Terminal.dimmed.paint time = Terminal.escape 2 ++ time ++ Terminal.escape 0 := rfl
      simp only [Terminal.Colors.paint, warningLine, faint, label, client, time,
        String.append_assoc]

theorem map_line_warnings (colors : Terminal.Colors) (time : String) (c : Client) (row : Nat) :
    (c.warnings row).map (Log.Event.line colors time) = c.warningLines colors time row := by
  simp only [Client.warnings, resultEvents, Client.rejection, Client.warningLines, List.map_append,
    List.map_map, Function.comp_def, line_warning, List.map_cons, List.map_nil, String.join_cons,
    String.join_nil, String.append_empty, fieldText_row, String.append_assoc]

namespace Pipeline

/-- The warnings of a batch are those of its invalid clients, with their rows. -/
theorem warnings_processFrom (p : Pipeline) (row : Nat) (cs : List Client) :
    ((p.processFrom row cs).flatMap resultEvents).filter Log.Event.isWarning =
      (invalidFrom row cs).flatMap fun e => e.1.warnings e.2 := by
  induction cs generalizing row with
  | nil => rfl
  | cons c cs ih =>
      rw [processFrom, List.flatMap_cons, List.filter_append, ih]
      -- The step adds no warning, or nothing else.
      cases h : c.isValid with
      | true =>
          rw [p.process_of_valid row h, warnings_scored, invalidFrom_cons_of_valid h,
            List.nil_append]
      | false =>
          rw [p.process_of_invalid row h, invalidFrom_cons_of_invalid h, List.flatMap_cons]
          exact congrArg (· ++ _) (warnings_rejection c row)

theorem warnings_events (p : Pipeline) (cs : List Client) :
    (p.events cs).filter Log.Event.isWarning =
      (invalidFrom 1 cs).flatMap fun e => e.1.warnings e.2 := by
  rw [events, List.filter_append, processAll, warnings_processFrom]
  cases p.run cs with
  | ok o | error f => exact List.append_nil _

end Pipeline

namespace Run

variable {env : Environment} {r : Request} {t : FileTree} {j : Job}

/-- What the error channel ends with, by the answer of the batch: a failure, or the place of the
report where the format leaves it to this channel. -/
def EndsWith (w : Transcript) (texts : List String) : Except NoValidEntries Outcome → Prop
  | .error f => w.code = 1 ∧
      texts = ["No valid entries to score (" ++ toString f.rejected.length ++ " rejected)."]
  | .ok _ =>
      (w.code = 1 ∧ ∃ e : ReportError, texts = [e.message]) ∨
      (w.code = 0 ∧ (texts = [] ∨
        ∃ path, texts = ["Credit scoring complete. Output written to " ++ path]))

/-- Nothing is asked for besides the results. -/
structure Quiet (env : Environment) (r : Request) : Prop where
  standardFilter : env.logFilter = none
  brief : r.verbose = false
  unexplained : r.explain = false

/-- A quiet run logs warnings and errors and nothing else. -/
theorem Quiet.logged_eq (quiet : Quiet env r) (es : List Log.Event) :
    logged env r es = (es.filter Log.Event.isWarning).map (.event env.logColors) := by
  simp only [logged, quiet.standardFilter, quiet.brief, Log.allows_standard]

theorem Quiet.jobLog_eq (quiet : Quiet env r) (j : Job) :
    jobLog env r j =
      ((invalidFrom 1 j.clients).flatMap fun e => e.1.warnings e.2).map
        (.event env.logColors) := by
  have loaded : (loadedEvent r.input j.clients).isWarning = false := rfl
  rw [jobLog, quiet.logged_eq, List.filter_cons_of_neg (by rw [loaded]; decide),
    j.pipeline.warnings_events]

theorem Quiet.notices_deliver (quiet : Quiet env r) (log : List Notice) (o : Outcome) :
    ∃ w u, ∃ texts : List String,
      (deliver env r j log o : StateM FileTree Transcript).run t = (w, u) ∧
      w.notices = log ++ texts.map .text ∧ EndsWith w texts (.ok o) := by
  have explained : explanations env r j.pipeline o = [] := by
    rw [explanations, quiet.unexplained]
    rfl
  have rejected : rejectionNotices r o = [] := by
    rw [rejectionNotices, quiet.brief]
    rfl
  have total : totalNotices r o = [] := by
    rw [totalNotices, quiet.brief]
    rfl
  have written (path : String) :
      logged env r [ReportFile.writtenEvent path o.results.length] = [] := quiet.logged_eq _
  cases saved : (saving env r j o).run t with
  | mk answer u =>
      cases answer with
      | error e =>
          refine ⟨_, u, [e.message], run_deliver_of_unsaved log saved, ?_, .inl ⟨rfl, e, rfl⟩⟩
          rw [explained, rejected, List.append_nil, List.append_nil]
          rfl
      | ok path =>
          obtain ⟨w, ended, code, -, notices⟩ := run_deliver_of_saved log saved
          simp only [explained, rejected, written, total, List.append_nil] at notices
          cases format : r.format with
          | table =>
              rw [format] at notices
              exact ⟨w, u, [], ended, notices, .inr ⟨code, .inl rfl⟩⟩
          | json =>
              rw [format] at notices
              exact ⟨w, u, [closingLine path], ended, notices, .inr ⟨code, .inr ⟨path, rfl⟩⟩⟩

/-- A quiet run that gets as far as the batch writes its warnings, and then how it ends. -/
theorem Quiet.notices_score (quiet : Quiet env r) (prepared : Prepared env r t j) :
    ∃ w u, ∃ texts : List String, (score env r : StateM FileTree Transcript).run t = (w, u) ∧
      w.notices = ((invalidFrom 1 j.clients).flatMap fun e => e.1.warnings e.2).map
        (.event env.logColors) ++ texts.map .text ∧
      EndsWith w texts (j.pipeline.run j.clients) := by
  rw [← quiet.jobLog_eq]
  cases ran : j.pipeline.run j.clients with
  | error f =>
      exact ⟨_, t, [_], run_score_of_noValidEntries prepared ran, rfl, rfl,
        congrArg ([·]) f.message_ended⟩
  | ok o =>
      rw [run_score_of_prepared prepared ran]
      exact quiet.notices_deliver (jobLog env r j) o

end Run

section

open Terminal

theorem feeds_of_controlFree {s : String} (h : Text.ControlFree s) : feeds s = 0 := by
  refine feeds_eq_zero_iff.2 fun feed => ?_
  cases h '\n' feed

theorem feeds_warningLine (colors : Colors) {time message id : String} (atTime : feeds time = 0)
    (plain : feeds message = 0) (named : feeds id = 0) :
    feeds (warningLine colors time message id) = 0 := by
  cases colors with
  | off =>
      have label : feeds "  WARN " = 0 := by decide
      have client : feeds " client=" = 0 := by decide
      simp only [warningLine, feeds_append, atTime, label, plain, client, named]
  | on =>
      have faint : feeds "\x1b[2m" = 0 := by decide
      have label : feeds "\x1b[0m \x1b[33m WARN\x1b[0m " = 0 := by decide
      have client : feeds " \x1b[3mclient\x1b[0m\x1b[2m=\x1b[0m" = 0 := by decide
      simp only [warningLine, feeds_append, atTime, faint, label, plain, client, named]

theorem feeds_warningLines (colors : Colors) {time : String} {c : Client} (atTime : feeds time = 0)
    (named : feeds c.id = 0) (row : Nat) : ∀ s ∈ c.warningLines colors time row, feeds s = 0 := by
  rw [Client.warningLines, List.forall_mem_append, List.forall_mem_map, List.forall_mem_singleton]
  constructor
  · intro reason h
    obtain ⟨v, -, rfl⟩ := List.mem_map.1 h
    exact feeds_warningLine colors atTime (feeds_message row v) named
  · have name : feeds (rowName colors) = 0 := by cases colors <;> decide
    rw [feeds_append, feeds_append, name, feeds_toString,
      feeds_warningLine colors atTime (by decide) named]

/-- The error channel has the lines of the events first, if each of them is one line. -/
theorem lines_errorText {colors : Colors} {w : Transcript} {es : List Log.Event}
    {texts : List String} (notices : w.notices = es.map (.event colors) ++ texts.map .text)
    {time : String} (single : ∀ e ∈ es, feeds (e.line colors time) = 0) (elapsed : String) :
    lines (w.errorText time elapsed) =
      es.map (Log.Event.line colors time) ++ lines (String.join (texts.map (· ++ "\n"))) := by
  have ended : w.errorText time elapsed =
      String.join ((es.map (Log.Event.line colors time)).map (· ++ "\n")) ++
        String.join (texts.map (· ++ "\n")) := by
    rw [Transcript.errorText, notices, List.map_append, String.join_append, List.map_map,
      List.map_map, List.map_map]
    rfl
  rw [ended]
  exact lines_join (List.forall_mem_map.2 single) _

end

open Run Terminal

/-- Where nothing is asked for besides the results, a run that gets as far as the batch logs what is
wrong with each client that is not valid, in the order of the input, and nothing else. Where no id
has control characters, the lines of the log are what the error channel begins with. -/
theorem warnings_of_run (env : Environment) (arguments : List String) (r : Request) (t : FileTree)
    (j : Job) (asked : CommandLine.parse arguments = .score r) (quiet : Quiet env r)
    (prepared : Prepared env r t j) (ids : ∀ c ∈ j.clients, Text.ControlFree c.id) :
    ∃ w u, ∃ (log : List Log.Event) (texts : List String),
      (run env arguments : StateM FileTree Transcript).run t = (w, u) ∧
      w.notices = log.map (.event env.logColors) ++ texts.map .text ∧
      (∀ time, log.map (Log.Event.line env.logColors time) =
        (invalidFrom 1 j.clients).flatMap fun e =>
          e.1.warningLines env.logColors time e.2) ∧
      (∀ time elapsed, feeds time = 0 → lines (w.errorText time elapsed) =
        ((invalidFrom 1 j.clients).flatMap fun e =>
          e.1.warningLines env.logColors time e.2) ++
          lines (String.join (texts.map (· ++ "\n")))) ∧
      EndsWith w texts (j.pipeline.run j.clients) := by
  obtain ⟨w, u, texts, ended, notices, ends⟩ := quiet.notices_score prepared
  have log (time : String) :
      ((invalidFrom 1 j.clients).flatMap fun e => e.1.warnings e.2).map
          (Log.Event.line env.logColors time) =
        (invalidFrom 1 j.clients).flatMap fun e => e.1.warningLines env.logColors time e.2 := by
    rw [List.map_flatMap]
    exact List.flatMap_congr fun e _ => map_line_warnings env.logColors time e.1 e.2
  refine ⟨w, u, _, texts, ?_, notices, log, ?_, ends⟩
  · rw [run, asked]
    exact ended
  · intro time elapsed atTime
    rw [← log]
    refine lines_errorText notices ?_ elapsed
    rw [← List.forall_mem_map (P := fun s => feeds s = 0), log]
    intro s hs
    obtain ⟨e, he, hs⟩ := List.mem_flatMap.1 hs
    have named := feeds_of_controlFree (ids e.1 (mem_of_mem_invalidFrom he).1)
    exact feeds_warningLines env.logColors atTime named e.2 s hs

def twoClientTree : FileTree where
  entries := [(["c.csv"],
    .file (Utf8.encode "id\nC1,,AT,,30,0,x,y,0\nC2,,AT,,0,0,x,,0\n".toList))]
  workingDirectory := []

def twoClientJob : Job :=
  { oneClientJob with
    clients := oneClientJob.clients ++ [⟨"C2", "", "AT", "", 0, 0.0, "x", "", 0.0, 0.0⟩] }

theorem prepared_twoClientJob :
    Prepared januaryRun { oneClientRequest with format := .table } twoClientTree twoClientJob := by
  have content : twoClientTree.read (.ofString "c.csv") =
      .ok (Utf8.encode "id\nC1,,AT,,30,0,x,y,0\nC2,,AT,,0,0,x,,0\n".toList) := by decide +kernel
  have clients : ClientFile.parse
      (Utf8.encode "id\nC1,,AT,,30,0,x,y,0\nC2,,AT,,0,0,x,,0\n".toList) =
      .ok twoClientJob.clients := by decide +kernel
  exact prepared_standard rfl rfl (by decide +kernel) content clients

/-- Only the second client is logged, with both rules that it breaks. -/
theorem warnings_of_run_twoClientJob : ∃ w u, ∃ texts : List String,
    (run januaryRun ["c.csv"] : StateM FileTree Transcript).run twoClientTree = (w, u) ∧
    lines (w.errorText "2024-01-31T09:15:00.000000Z" "1ms") =
      ["2024-01-31T09:15:00.000000Z  WARN Row 2: Invalid age: 0 client=C2",
        "2024-01-31T09:15:00.000000Z  WARN Row 2: Missing employment or industry info client=C2",
        "2024-01-31T09:15:00.000000Z  WARN Skipping invalid client entry client=C2 row=2"] ++
      lines (String.join (texts.map (· ++ "\n"))) := by
  have asked : CommandLine.parse ["c.csv"] = .score { oneClientRequest with format := .table } := by
    decide +kernel
  have ids : ∀ c ∈ twoClientJob.clients, Text.ControlFree c.id := by
    decide +kernel
  obtain ⟨w, u, log, texts, ended, -, -, errors, -⟩ :=
    warnings_of_run januaryRun ["c.csv"] _ _ _ asked ⟨rfl, rfl, rfl⟩ prepared_twoClientJob ids
  refine ⟨w, u, texts, ended, ?_⟩
  rw [errors _ _ (by decide)]
  refine congrArg (· ++ _) ?_
  decide +kernel

end CreditRating

import CreditRating.ClientFile
import CreditRating.CommandLine
import CreditRating.ConfigurationFile
import CreditRating.OutcomeDocument
import CreditRating.ReportFile
import CreditRating.Terminal.Views

/-!
A run of the program from its arguments to its exit code. What a run reads is
read in a fixed order, and the first failure ends it; the report is written last,
after the outcome has been shown.
-/

namespace CreditRating

/-- What a run finds around it. -/
structure Environment where
  home : Option String
  logFilter : Option String
  colors : Terminal.Colors
  /-- Whether the lines of the log are coloured, which the output does not decide. -/
  logColors : Terminal.Colors := .off
  /-- The name of the report, if one is written. -/
  reportName : String
  deriving Repr

inductive Failure where
  | noInput (path : String)
  | badConfiguration (error : ConfigurationError)
  | badPolicy (violations : List PolicyViolation)
  | badClients (error : LoadError)
  | noValidEntries (failure : NoValidEntries)
  | noReport (error : ReportError)
  deriving Repr

/-- What is written to the error channel: lines that are known, and such as need
the time. -/
inductive Notice where
  | text (line : String)
  | badConfiguration (error : ConfigurationError)
  | event (colors : Terminal.Colors) (e : Log.Event)
  /-- How many clients have been processed, and how long that took. -/
  | total (clients : Nat)
  deriving Repr

/-- The line of a notice, written at a time after so much time has passed. -/
def Notice.line (time elapsed : String) : Notice → String
  | text line => line
  | badConfiguration error => "Config error: " ++ error.message
  | event colors e => e.line colors time
  | total clients => "Total: " ++ toString clients ++ " clients in " ++ elapsed

def Failure.notices : Failure → List Notice
  | noInput path => [.text ("File not found: " ++ path)]
  | badConfiguration error => [.badConfiguration error]
  | badPolicy violations =>
      .text "Scoring config errors:" :: violations.map fun v => .text ("  - " ++ v.message)
  | badClients error => [.text ("Failed to load client data: " ++ error.message)]
  | noValidEntries failure => [.text (failure.message ++ ".")]
  | noReport error => [.text error.message]

/-- What a run has written and the code it ends with. -/
structure Transcript where
  code : Nat
  /-- The text on the output channel. -/
  out : String
  notices : List Notice
  deriving Repr

def Transcript.errorText (w : Transcript) (time elapsed : String) : String :=
  String.join (w.notices.map fun n => n.line time elapsed ++ "\n")

def Transcript.failed (out : String) (notices : List Notice) (f : Failure) : Transcript :=
  ⟨1, out, notices ++ f.notices⟩

namespace Run

/-- What there is to score, and with what. -/
structure Job where
  configuration : Configuration
  pipeline : Pipeline
  clients : List Client
  deriving Repr

/-- The directory of the report: the requested one, else the configured one. -/
def reportDirectory (r : Request) (c : Configuration) : String :=
  (r.outputDir.or c.outputDir).getD ReportFile.standardDirectory

def logged (env : Environment) (r : Request) (es : List Log.Event) : List Notice :=
  let filter := Log.Filter.choose env.logFilter r.verbose
  (es.filter filter.allows).map (.event env.logColors)

def loadedEvent (path : String) (clients : List Client) : Log.Event :=
  ⟨.run, .debug, "loaded clients", [("count", toString clients.length), ("path", path)]⟩

def shown (env : Environment) (r : Request) (o : Outcome) : String :=
  match r.format with
  | .table => Terminal.scoreTable env.colors o.results ++ "\n\n" ++ Terminal.summary env.colors o
  | .json => o.document ++ "\n"

def explanations (env : Environment) (r : Request) (p : Pipeline) (o : Outcome) : List Notice :=
  if r.explain then
    o.results.flatMap fun s =>
      [.text "", .text (Terminal.breakdown env.colors s.client (p.explain s.client))]
  else []

/-- The rejected records, if there are any and more than usual is to be shown. -/
def rejectionNotices (r : Request) (o : Outcome) : List Notice :=
  if r.verbose && !o.rejected.isEmpty then
    [.text "", .text "Rejected:", .text (Terminal.rejections o.rejected)]
  else []

def totalNotices (r : Request) (o : Outcome) : List Notice :=
  if r.verbose then [.text "", .total (o.results.length + o.rejected.length)] else []

def closingLine (path : String) : String :=
  "Credit scoring complete. Output written to " ++ path

variable {m : Type → Type} [Monad m] [FileStore m]

/-- Reads what a request names. -/
def prepare (home : Option String) (r : Request) : m (Except Failure Job) := do
  if !(← FileStore.pathExists (.ofString r.input)) then return .error (.noInput r.input)
  match ← ConfigurationFile.load home r.config with
  | .error error => return .error (.badConfiguration error)
  | .ok configuration =>
      match Pipeline.ofPolicy configuration.policy with
      | .error violations => return .error (.badPolicy violations)
      | .ok pipeline =>
          match ← ClientFile.load r.input with
          | .error error => return .error (.badClients error)
          | .ok clients => return .ok ⟨configuration, pipeline, clients⟩

/-- Shows an outcome and writes its report. What has been logged comes first. -/
def deliver (env : Environment) (r : Request) (j : Job) (log : List Notice) (o : Outcome) :
    m Transcript := do
  let out := shown env r o
  let notices := log ++ explanations env r j.pipeline o ++ rejectionNotices r o
  match ← ReportFile.save (reportDirectory r j.configuration) env.reportName o.results with
  | .error error => return .failed out notices (.noReport error)
  | .ok path =>
      let notices := notices ++
        logged env r [ReportFile.writtenEvent path o.results.length] ++ totalNotices r o
      match r.format with
      | .table => return ⟨0, out ++ closingLine path ++ "\n", notices⟩
      | .json => return ⟨0, out, notices ++ [.text (closingLine path)]⟩

def score (env : Environment) (r : Request) : m Transcript := do
  match ← prepare env.home r with
  | .error failure => return .failed "" [] failure
  | .ok j =>
      let log := logged env r (loadedEvent r.input j.clients :: j.pipeline.events j.clients)
      match j.pipeline.run j.clients with
      | .error failure => return .failed "" log (.noValidEntries failure)
      | .ok o => deliver env r j log o

end Run

/-- Does what the arguments ask for. -/
def run {m : Type → Type} [Monad m] [FileStore m] (env : Environment) (arguments : List String) :
    m Transcript :=
  match CommandLine.parse arguments with
  | .score r => Run.score env r
  | .help => return ⟨0, CommandLine.helpText, []⟩
  | .version => return ⟨0, CommandLine.versionText ++ "\n", []⟩
  | .misuse error =>
      return ⟨1, "", [.text ("error: " ++ error.message), .text "",
        .text CommandLine.usageText]⟩

end CreditRating

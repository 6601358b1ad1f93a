import CreditRating.Files.Store
import CreditRating.Report
import CreditRating.Text.Utf8

/-!
Writing of reports to files. A report without results is not written, and
nothing is made for it.
-/

namespace CreditRating

inductive ReportError where
  | noResults
  | noDirectory (path : String) (fault : FileFault)
  | unopened (path : String) (fault : FileFault)
  | unsaved (path : String) (fault : FileFault)
  deriving DecidableEq, Repr

def ReportError.message : ReportError → String
  | noResults => "No valid entries to score; refusing to write an empty report"
  | noDirectory path fault =>
      "Failed to create output directory at " ++ path ++ ": " ++ fault.message
  | unopened path fault => "Could not write to file: " ++ path ++ ": " ++ fault.message
  | unsaved path fault => "Failed to save report at " ++ path ++ ": " ++ fault.message

namespace ReportFile

def standardDirectory : String := "output"

def writtenEvent (path : String) (rows : Nat) : Log.Event :=
  ⟨.report, .info, "report written", [("path", path), ("rows", toString rows)]⟩

variable {m : Type → Type} [Monad m] [FileStore m]

/-- Writes the report of the results to a file in a directory, which is made if
it is missing, and gives the file's path. -/
def save (directory name : String) (results : List Scored) : m (Except ReportError String) := do
  if results.isEmpty then return .error .noResults
  match ← FileStore.makeDirectories (.ofString directory) with
  | .error fault => return .error (.noDirectory directory fault)
  | .ok () =>
      let path := Path.join directory name
      let text := Report.render results
      match ← FileStore.write (.ofString path) (Utf8.encode text.toList) with
      | .error (.opening fault) => return .error (.unopened path fault)
      | .error (.after fault) => return .error (.unsaved path fault)
      | .ok () => return .ok path

end ReportFile
end CreditRating

import CreditRating.Configuration
import CreditRating.Files.Store

/-!
Where the configuration comes from: a given file, which has to exist, or the
standard file in the home directory, which may be missing.
-/

namespace CreditRating

inductive ConfigurationError where
  | notFound (path : String)
  | unreadable (path : String) (fault : FileFault)
  | invalid (path : String) (fault : Yaml.Fault)
  deriving DecidableEq, Repr

namespace ConfigurationError

/-- What failed, without what is wrong in the text. -/
def summary : ConfigurationError → String
  | notFound path => "Config file not found at " ++ path
  | unreadable path fault => "Failed to read config file at " ++ path ++ ": " ++ fault.message
  | invalid path _ => "Failed to parse config: invalid YAML in " ++ path

/-- Behind what failed stands the description of an invalid text, in the words of `Yaml.Fault`. -/
def message : ConfigurationError → String
  | invalid path fault => (invalid path fault).summary ++ ": " ++ fault.message
  | e => e.summary

end ConfigurationError

namespace ConfigurationFile

def standardPath (home : String) : String :=
  Path.join (Path.join (Path.join home ".config") "credit-rater") "config.yaml"

def parse (path : String) (bytes : List UInt8) : Except ConfigurationError Configuration :=
  match Utf8.decode bytes with
  | .error _ => .error (.unreadable path .notText)
  | .ok s => (Configuration.parse s).mapError (.invalid path)

variable {m : Type → Type} [Monad m] [FileStore m]

/-- The configuration of a file that exists. -/
def read (path : String) : m (Except ConfigurationError Configuration) := do
  match ← FileStore.read (.ofString path) with
  | .ok bytes => return parse path bytes
  | .error (.opening fault) | .error (.after fault) => return .error (.unreadable path fault)

/-- The configuration of the given file, else that of the home directory. -/
def load (home given : Option String) : m (Except ConfigurationError Configuration) := do
  match given with
  | some path =>
      if ← FileStore.pathExists (.ofString path) then read path
      else return .error (.notFound path)
  | none =>
      match home.map standardPath with
      | some path =>
          if ← FileStore.pathExists (.ofString path) then read path else return .ok .standard
      | none => return .ok .standard

end ConfigurationFile
end CreditRating

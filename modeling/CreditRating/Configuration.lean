import CreditRating.Policy
import CreditRating.Yaml.Content
import CreditRating.Yaml.NodeReader

/-!
The configuration: a scoring policy and the directory of the reports, each of
which may be left out. It is written in YAML.
-/

namespace CreditRating

structure Configuration where
  scoring : Option Policy
  outputDir : Option String
  deriving BEq, Repr

namespace Configuration

def standard : Configuration := ⟨none, none⟩

def policy (c : Configuration) : Policy := c.scoring.getD ⟨none, none⟩

def table (x : Yaml.Node) : Except Yaml.Fault Table := do
  let entries ← (← x.fields).mapM fun f => do return (← f.name, ← f.value.number)
  return .ofList entries

def policyOf (x : Yaml.Node) : Except Yaml.Fault Policy := do
  let fs ← x.fieldsAmong ["weights", "countries"]
  return ⟨← Yaml.optionalField table "weights" fs, ← Yaml.optionalField table "countries" fs⟩

def ofNode (x : Yaml.Node) : Except Yaml.Fault Configuration := do
  let fs ← x.fieldsAmong ["scoring", "output_dir"]
  return ⟨← Yaml.optionalField policyOf "scoring" fs,
    ← Yaml.optionalField Yaml.Node.text "output_dir" fs⟩

/-- The configuration that a text writes. White space alone sets nothing. The byte
order mark of a file may stand in front of the document's own. -/
def parse (s : List Char) : Except Yaml.Fault Configuration :=
  if (Text.trim s).isEmpty then .ok standard
  else do ofNode (← Yaml.read (Yaml.withoutMark s))

end Configuration
end CreditRating

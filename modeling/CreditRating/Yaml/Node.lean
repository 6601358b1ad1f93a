import CreditRating.Yaml.Token

/-!
The nodes of a YAML document. Aliases do not occur: each stands as the node that
it names.
-/

namespace CreditRating
namespace Yaml

inductive CoreType where
  | null
  | bool
  | int
  | float
  | text
  | binary
  | sequence
  | mapping
  | timestamp
  | time
  | degrees
  | radians
  deriving DecidableEq, Repr

/-- The lead of the names of the core schema, for which "!!" stands. -/
def coreLead : String := "tag:yaml.org,2002:"

namespace CoreType

/-- The type with the name in front of which a lead stands. -/
def ofShortName? (name : String) : Option CoreType :=
  [("null", null), ("bool", bool), ("int", int), ("float", float), ("str", text),
    ("binary", binary), ("seq", sequence), ("map", mapping), ("timestamp", timestamp),
    ("time", time), ("degrees", degrees), ("radians", radians)].lookup name

def leads : List String := ["!", "!!", coreLead ++ "!"]

def ofName? (name : String) : Option CoreType :=
  leads.findSome? fun lead => do
    guard (lead.toList.isPrefixOf name.toList)
    ofShortName? (String.ofList (name.toList.drop lead.length))

end CoreType

/-- What the tag of a node says about it. -/
inductive Tag where
  | absent
  /-- The tag "!". -/
  | nonSpecific
  | core (type : CoreType)
  | other
  deriving DecidableEq, Repr

namespace Tag

/-- The name of a tag: what its handle stands for, a "!", and its suffix. The lead
"!" is that mark itself. -/
def name (lead suffix : String) : String :=
  if lead = "!" then "!" ++ suffix else lead ++ "!" ++ suffix

def ofLead (lead suffix : String) : Tag :=
  if lead = "" ∧ suffix = "!" then .nonSpecific
  else match CoreType.ofName? (name lead suffix) with
    | some type => .core type
    | none => .other

end Tag

inductive Node where
  | scalar (tag : Tag) (style : ScalarStyle) (text : String)
  | sequence (items : List Node)
  | mapping (entries : List (Node × Node))
  deriving Repr

def Node.empty : Node := .scalar .absent .plain ""

end Yaml
end CreditRating

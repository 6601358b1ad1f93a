import CreditRating.Decimal.Reading
import CreditRating.Text.Base64
import CreditRating.Text
import CreditRating.Text.Utf8
import CreditRating.Yaml.Fault
import CreditRating.Yaml.Node

/-!
What nodes say: nothing, a text, a number, or named fields. The key "<<" merges
the fields of other mappings into its own; the own fields of a mapping win over
merged ones, and those that are merged last over the earlier.
-/

namespace CreditRating
namespace Yaml

def isNullWord (s : String) : Bool :=
  s = "" || s = "~" || s.toList.map Char.toLower = "null".toList

namespace Node

def isNothing : Node → Bool
  | scalar _ style text => style = .plain && isNullWord text
  | _ => false

/-- Whether the node says nothing, by a word or by its tag. -/
def isNull : Node → Bool
  | scalar tag style text => tag = .core .null || isNothing (scalar tag style text)
  | _ => false

/-- Whether the node leaves out something optional. A block text without content
does so too. -/
def isAbsent : Node → Bool
  | scalar tag style text => isNull (scalar tag style text) || (!style.isQuoted && text = "")
  | _ => false

/-- The text that Base64 writes; white space does not count. -/
def binaryText? (s : String) : Option String := do
  let bytes ← Base64.decode? (s.toList.filter fun c => !c.isWhitespace)
  return String.ofList (← (Utf8.decode bytes).toOption)

/-- The text that a scalar writes. Nothing is no text, unless it is tagged as one,
and neither is a scalar that is tagged as something else. -/
def text : Node → Except Fault String
  | scalar (.core .text) _ s => .ok s
  | x =>
      if x.isNull then .error .unexpectedNull
      else match x with
        | scalar (.core .binary) _ s => (binaryText? s).elim (.error .notText) .ok
        | scalar .absent _ s | scalar .nonSpecific _ s | scalar .other _ s => .ok s
        | _ => .error .notText

/-- The number that a text writes. The special values have names of their own,
which like the letters of an exponent are read in either case. -/
def number? (s : List Char) : Option Float :=
  let s := Text.trim s
  let lower := s.map Char.toLower
  if lower = ".nan".toList ∨ lower = "+.nan".toList ∨ lower = "-.nan".toList then
    some Decimal.notANumber
  else if lower = ".inf".toList ∨ lower = "+.inf".toList then some Decimal.infinity
  else if lower = "-.inf".toList then some (-Decimal.infinity)
  else Decimal.read? s

def number : Node → Except Fault Float
  | scalar _ _ s => (number? s.toList).elim (.error .notNumber) .ok
  | _ => .error .notNumber

def optional {α : Type} (read : Node → Except Fault α) (x : Node) : Except Fault (Option α) :=
  if x.isAbsent then .ok none else (read x).map some

end Node

/-- An entry of a mapping whose key is a scalar. -/
structure Field where
  tag : Tag
  style : ScalarStyle
  /-- The key as it is written. -/
  key : String
  value : Node

namespace Field

/-- Whether two fields have one key. Keys with different tags differ. -/
def sameKey (f g : Field) : Bool := f.tag = g.tag && f.key = g.key

def name (f : Field) : Except Fault String := (Node.scalar f.tag f.style f.key).text

def ofEntry : Node × Node → Except Fault Field
  | (.scalar tag style key, value) => .ok ⟨tag, style, key, value⟩
  | _ => .error .notText

end Field

namespace Node

/-- Whether the node is the key of what is merged. It has no tag. -/
def isMergeMark : Node → Bool
  | scalar .absent .plain "<<" => true
  | _ => false

mutual

/-- The entries that merging the node adds. Of those with one key the first counts. -/
def merged : Node → Except Fault (List (Node × Node))
  | mapping entries => do
      let (own, others) ← apart entries
      return own ++ others
  | sequence items => mergedItems items
  | scalar tag style text =>
      if isNothing (scalar tag style text) then .ok [] else .error .badMerge

/-- The entries that merging all the nodes adds, those of the last node first. -/
def mergedItems : List Node → Except Fault (List (Node × Node))
  | [] => .ok []
  | x :: xs => do return (← mergedItems xs) ++ (← merged x)

/-- The own entries of a mapping, and those merged into it, the last ones first. -/
def apart : List (Node × Node) → Except Fault (List (Node × Node) × List (Node × Node))
  | [] => .ok ([], [])
  | (key, value) :: es => do
      let (own, others) ← apart es
      if key.isMergeMark then return (own, others ++ (← merged value))
      else return ((key, value) :: own, others)

end

def addField (fs : List Field) (f : Field) : List Field :=
  if fs.any f.sameKey then fs else fs ++ [f]

def hasDuplicate : List Field → Bool
  | [] => false
  | f :: fs => fs.any f.sameKey || hasDuplicate fs

/-- The fields of a mapping, or of nothing. -/
def fields : Node → Except Fault (List Field)
  | mapping entries => do
      let (own, others) ← apart entries
      let own ← own.mapM Field.ofEntry
      if hasDuplicate own then .error .duplicateKey
      return (← others.mapM Field.ofEntry).foldl addField own
  | x => if x.isNull then .ok [] else .error .notMapping

/-- The fields of a mapping that has no others than the named ones. Their keys are
taken as they are written. -/
def fieldsAmong (names : List String) (x : Node) : Except Fault (List Field) := do
  let fs ← x.fields
  match fs.find? fun f => !names.contains f.key with
  | some f => .error (.unknownField f.key)
  | none => return fs

end Node

def optionalField {α : Type} (read : Node → Except Fault α) (key : String) (fs : List Field) :
    Except Fault (Option α) :=
  match fs.filter (·.key = key) with
  | [] => .ok none
  | [f] => f.value.optional read
  | _ => .error .duplicateKey

end Yaml
end CreditRating

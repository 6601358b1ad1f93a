import CreditRating.Yaml.Node
import CreditRating.Yaml.TokenReader

/-!
The node that the tokens of a text form. A text holds one document; what follows
its end is wrong only if another document begins there, or if it cannot be told
that the end has come.
-/

namespace CreditRating
namespace Yaml

/-- The tokens that are left, and what those before them have declared. -/
structure TokenSource where
  tokens : List TokenKind
  /-- What is wrong where the tokens end. -/
  fault : Fault
  /-- What a tag handle stands for, if the last directive has declared one. -/
  handle : Option (String × String)
  /-- The anchors, each with its node unless that is still being read. -/
  anchors : Array (String × Option Node)
  /-- How many aliases have been read. -/
  aliases : Nat

/-- Reading of a part of the document. -/
abbrev Reading := StateT TokenSource (Except Fault)

namespace Reading

def peek : Reading TokenKind := do
  let s ← get
  match s.tokens with
  | kind :: _ => return kind
  | [] => throw s.fault

def skip : Reading Unit :=
  modify fun s => { s with tokens := s.tokens.tail }

def skipIf (kind : TokenKind) : Reading Bool := do
  if (← peek) = kind then
    skip
    return true
  else return false

/-- What a tag handle stands for. A named handle has to be declared. -/
def leadOf (handle : String) : Reading String := do
  match (← get).handle.toList.lookup handle with
  | some lead => return lead
  | none =>
      if handle = "!!" then return coreLead
      else if 2 ≤ handle.length then throw (.undeclaredHandle handle)
      else return handle

def tag : Reading Tag := do
  match ← peek with
  | .tag handle suffix =>
      skip
      return .ofLead (← leadOf handle) suffix
  | _ => return .absent

def anchor : Reading (Option Nat) := do
  match ← peek with
  | .anchor name =>
      skip
      let number := (← get).anchors.size
      modify fun s => { s with anchors := s.anchors.push (name, none) }
      return some number
  | _ => return none

/-- The properties in front of a node, which come in either order. -/
structure Properties where
  anchor : Option Nat
  tag : Tag

def properties : Reading Properties := do
  match ← anchor with
  | some number => return ⟨number, ← tag⟩
  | none =>
      let tag ← tag
      return ⟨← anchor, tag⟩

def Properties.isEmpty (p : Properties) : Bool := p.anchor.isNone && p.tag = .absent

/-- A scalar with properties. Behind an anchor a scalar without text counts as a
plain one. -/
def Properties.scalar (p : Properties) (style : ScalarStyle) (text : String) : Node :=
  let style := if p.anchor.isSome && text = "" && style.isQuoted then .plain else style
  .scalar p.tag style text

/-- Gives an anchor its node. -/
def setAnchor (number? : Option Nat) (x : Node) : Reading Unit :=
  match number? with
  | some number =>
      modify fun s => { s with anchors := s.anchors.modify number fun a => (a.1, some x) }
  | none => return

/-- The node that an alias stands for. A node cannot hold itself. -/
def aliased (name : String) : Reading Node := do
  modify fun s => { s with aliases := s.aliases + 1 }
  match (← get).anchors.findRev? (·.1 = name) with
  | some (_, some x) => return x
  | _ => throw (.unknownAnchor name)

inductive Place where
  | flow
  | block
  /-- A key or a value of a block mapping, where a sequence may begin without
  deeper indentation. -/
  | blockEntry
  deriving DecidableEq

/-- A node, or the empty one if what is next can only follow a node. -/
def orEmpty (ends : List TokenKind) (node : Reading Node) : Reading Node := do
  if ends.contains (← peek) then return .empty else node

/-- A value behind its mark, or the empty node if there is no mark. -/
def valueOrEmpty (ends : List TokenKind) (node : Reading Node) : Reading Node := do
  if ← skipIf .value then orEmpty ends node else return .empty

def blockEnds : List TokenKind := [.key, .value, .blockEnd]

def flowMappingEnds : List TokenKind := [.value, .flowEntry, .flowMappingEnd]

def flowSequenceEnds : List TokenKind := [.value, .flowEntry, .flowSequenceEnd]

mutual

/-- An alias, or a content behind its properties. -/
def node (place : Place) : Nat → Reading Node
  | 0 => throw .missingContent
  | n + 1 => do
      match ← peek with
      | .alias name =>
          skip
          aliased name
      | _ =>
          let p ← properties
          let x ← content place p n
          setAnchor p.anchor x
          return x

/-- A scalar or a collection. Properties without a content belong to an empty
scalar. -/
def content (place : Place) (p : Properties) : Nat → Reading Node
  | 0 => throw .missingContent
  | n + 1 => do
      let kind ← peek
      if kind = .blockEntry ∧ place = .blockEntry then
        return .sequence (← indentlessItems n)
      else if kind = .blockSequenceStart ∧ place ≠ .flow then
        skip
        return .sequence (← blockItems n)
      else if kind = .blockMappingStart ∧ place ≠ .flow then
        skip
        return .mapping (← blockEntries n)
      else match kind with
        | .scalar style text =>
            skip
            return p.scalar style text
        | .flowSequenceStart =>
            skip
            return .sequence (← flowItems true n)
        | .flowMappingStart =>
            skip
            return .mapping (← flowEntries true n)
        | _ =>
            if p.isEmpty then throw .missingContent
            else return p.scalar .plain ""

def blockEntries : Nat → Reading (List (Node × Node))
  | 0 => throw .missingContent
  | n + 1 => do
      match ← peek with
      | .blockEnd =>
          skip
          return []
      | .key =>
          skip
          let key ← orEmpty blockEnds (node .blockEntry n)
          let value ← valueOrEmpty blockEnds (node .blockEntry n)
          return (key, value) :: (← blockEntries n)
      | .value =>
          let value ← valueOrEmpty blockEnds (node .blockEntry n)
          return (.empty, value) :: (← blockEntries n)
      | _ => throw .badIndentation

def blockItems : Nat → Reading (List Node)
  | 0 => throw .missingContent
  | n + 1 => do
      match ← peek with
      | .blockEnd =>
          skip
          return []
      | .blockEntry =>
          skip
          let x ← orEmpty [.blockEntry, .blockEnd] (node .block n)
          return x :: (← blockItems n)
      | _ => throw .badIndentation

/-- The items of a block sequence that is not indented, of which nothing marks
the end. -/
def indentlessItems : Nat → Reading (List Node)
  | 0 => throw .missingContent
  | n + 1 => do
      if ← skipIf .blockEntry then
        let x ← orEmpty (.blockEntry :: blockEnds) (node .block n)
        return x :: (← indentlessItems n)
      else return []

/-- The items of a flow sequence, of which one with a key is a mapping of its own. -/
def flowItems (first : Bool) : Nat → Reading (List Node)
  | 0 => throw .missingContent
  | n + 1 => do
      if ← skipIf .flowSequenceEnd then return []
      if !first && !(← skipIf .flowEntry) then throw .missingSeparator
      match ← peek with
      | .flowSequenceEnd =>
          skip
          return []
      | .key =>
          skip
          let key ← orEmpty flowSequenceEnds (node .flow n)
          let value ← valueOrEmpty flowSequenceEnds (node .flow n)
          return .mapping [(key, value)] :: (← flowItems false n)
      | _ =>
          let x ← node .flow n
          return x :: (← flowItems false n)

def flowEntries (first : Bool) : Nat → Reading (List (Node × Node))
  | 0 => throw .missingContent
  | n + 1 => do
      if ← skipIf .flowMappingEnd then return []
      if !first && !(← skipIf .flowEntry) then throw .missingSeparator
      match ← peek with
      | .flowMappingEnd =>
          skip
          return []
      | .key =>
          skip
          let key ← orEmpty flowMappingEnds (node .flow n)
          let value ← valueOrEmpty flowMappingEnds (node .flow n)
          return (key, value) :: (← flowEntries false n)
      | .value =>
          let value ← valueOrEmpty flowMappingEnds (node .flow n)
          return (.empty, value) :: (← flowEntries false n)
      | _ =>
          let key ← node .flow n
          return (key, .empty) :: (← flowEntries false n)

end

/-- Moves over the directives of a document, of which the last one counts. The
version is given once. -/
def directives (hasVersion : Bool) : Nat → Reading Unit
  | 0 => return
  | n + 1 => do
      match ← peek with
      | .versionDirective =>
          if hasVersion then throw .badDirective
          skip
          modify fun s => { s with handle := none }
          directives true n
      | .tagDirective handle lead =>
          skip
          modify fun s => { s with handle := some (handle, lead) }
          directives hasVersion n
      | _ => return

def skipDocumentEnds : Nat → Reading Unit
  | 0 => return
  | n + 1 => do if ← skipIf .documentEnd then skipDocumentEnds n

/-- The kinds of token in front of which a document without content ends. -/
def isDocumentMark : TokenKind → Bool
  | .streamEnd | .versionDirective | .tagDirective _ _ | .documentStart | .documentEnd => true
  | _ => false

/-- A question about what is left, answered with no if that cannot be read. -/
def orNo (r : Reading Bool) : Reading Bool := fun s =>
  match r s with
  | .ok answer => .ok answer
  | .error _ => .ok (false, s)

/-- Whether another document begins. After an explicit end it needs no mark. -/
def anotherBegins (ended : Bool) (fuel : Nat) : Reading Bool := do
  skipDocumentEnds fuel
  if ended && !isDocumentMark (← peek) then return true
  directives false fuel
  return (← peek) = .documentStart

def documentContent (fuel : Nat) : Reading Node := do
  let first ← peek
  directives false fuel
  if ← skipIf .documentStart then
    if isDocumentMark (← peek) then return .empty else node .block fuel
  else if isDocumentMark first then throw .missingDocumentStart
  else node .block fuel

def freeAliases : Nat := 99

def aliasesOfAnchor : Nat := 10

/-- Refuses more aliases than the anchors allow. -/
def checkAliases : Reading Unit := do
  let s ← get
  if freeAliases < s.aliases && aliasesOfAnchor * s.anchors.size < s.aliases then
    throw .manyAliases

def document (fuel : Nat) : Reading Node := do
  skipDocumentEnds fuel
  if (← peek) = .streamEnd then return .empty
  let x ← documentContent fuel
  checkAliases
  let ended ← skipIf .documentEnd
  if !ended then
    match ← peek with
    | .versionDirective | .tagDirective _ _ => throw .missingDocumentStart
    | _ => pure ()
  if ← orNo (anotherBegins ended fuel) then throw .manyDocuments
  return x

end Reading

def read (s : List Char) : Except Fault Node :=
  let stream := tokens s
  let source : TokenSource :=
    ⟨stream.tokens.map (·.kind), stream.fault.getD .missingContent, none, #[], 0⟩
  (Reading.document (8 * stream.tokens.length + 8)).run' source

end Yaml
end CreditRating

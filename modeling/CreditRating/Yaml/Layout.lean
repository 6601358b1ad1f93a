import CreditRating.Yaml.Cursor
import CreditRating.Yaml.Token

/-!
The state in which tokens are read: the tokens so far, the open indentations,
and the tokens that become keys if a ":" follows on their line. A key is seen
only at its ":", so the tokens that announce it are put in afterwards.
-/

namespace CreditRating
namespace Yaml

/-- An indentation that a later token replaced. -/
structure Indentation where
  column : Int
  /-- Whether a block collection began with the replacement, so that its end is
  marked by a token. -/
  opensBlock : Bool
  deriving Repr

/-- A token that becomes a key if a ":" follows. -/
structure PossibleKey where
  index : Nat
  line : Nat
  column : Nat
  /-- The number of the token. -/
  token : Nat
  /-- Whether the text is wrong if no ":" follows. -/
  required : Bool
  deriving Repr

structure Layout where
  cursor : Cursor
  tokens : Array Token
  indent : Int
  /-- The replaced indentations, innermost first. -/
  indentations : List Indentation
  /-- The possible key of each flow level, innermost first, and of the block. -/
  keys : List (Option PossibleKey)
  keyAllowed : Bool
  /-- The kinds of token that began the open flow collections, innermost first. -/
  brackets : List TokenKind
  /-- The index at which a ":" is a value mark without white space after it. -/
  adjacentValue : Nat
  /-- Whether a mapping has begun in the innermost flow collection. -/
  inFlowMapping : Bool
  /-- For each flow sequence, innermost first, the flow level of the pair without
  brackets that is open in it. -/
  openPairs : List (Option Nat)
  /-- The line of the comment that has just ended a plain scalar. -/
  commentLine : Option Nat
  deriving Repr

def longestKey : Nat := 1024

def deepestFlow : Nat := 255

namespace Layout

def start (s : List Char) : Layout where
  cursor := .start s
  tokens := #[]
  indent := -1
  indentations := []
  keys := [none]
  keyAllowed := true
  brackets := []
  adjacentValue := 0
  inFlowMapping := false
  openPairs := []
  commentLine := none

def inFlow (s : Layout) : Bool := !s.brackets.isEmpty

def flowLevel (s : Layout) : Nat := s.brackets.length

def add (s : Layout) (column : Nat) (kind : TokenKind) : Layout :=
  { s with tokens := s.tokens.push ⟨kind, column⟩ }

/-- Puts a token in front of the token with the given number. -/
def insert (s : Layout) (number column : Nat) (kind : TokenKind) : Layout :=
  { s with tokens := s.tokens.insertIdxIfInBounds number ⟨kind, column⟩ }

def allowKey (s : Layout) : Layout := { s with keyAllowed := true }

def forbidKey (s : Layout) : Layout := { s with keyAllowed := false }

/-- The indentation after all that are deeper than `column` have ended: the new
indentation, those below it, and how many block collections have ended. -/
def unrolled (column : Int) : Int → List Indentation → Int × List Indentation × Nat
  | indent, [] => (indent, [], 0)
  | indent, i :: is =>
      if column < indent then
        let (indent, rest, ends) := unrolled column i.column is
        (indent, rest, ends + if i.opensBlock then 1 else 0)
      else (indent, i :: is, 0)

/-- Ends the block collections that are deeper than `column`. Inside of flow
collections indentation ends nothing. -/
def unroll (s : Layout) (column : Int) : Layout :=
  if s.inFlow then s
  else
    let (indent, rest, ends) := unrolled column s.indent s.indentations
    let marks := (List.replicate ends (Token.mk .blockEnd s.cursor.column)).toArray
    { s with indent := indent, indentations := rest, tokens := s.tokens ++ marks }

/-- Begins a block collection at `column`, if the indentation there is deeper
than before. The token goes in front of the one with the given number. -/
def roll (s : Layout) (column number : Nat) (kind : TokenKind) : Layout :=
  if s.inFlow then s
  else
    let s := match s.indentations with
      | i :: is =>
          if s.indent ≤ (column : Int) && !i.opensBlock then
            { s with indent := i.column, indentations := is }
          else s
      | [] => s
    if s.indent < (column : Int) then
      let deeper : Layout :=
        { s with indent := column, indentations := ⟨s.indent, true⟩ :: s.indentations }
      deeper.insert number column kind
    else s

/-- Makes the indentation one deeper for what follows an indicator, without
beginning a collection. -/
def rollOne (s : Layout) : Layout :=
  match s.indentations with
  | i :: _ =>
      if !s.inFlow && i.opensBlock then
        { s with indent := s.indent + 1, indentations := ⟨s.indent, false⟩ :: s.indentations }
      else s
  | [] => s

def withoutOnes : Int → List Indentation → Int × List Indentation
  | indent, [] => (indent, [])
  | indent, i :: is => if i.opensBlock then (indent, i :: is) else withoutOnes i.column is

def unrollOnes (s : Layout) : Layout :=
  let (indent, rest) := withoutOnes s.indent s.indentations
  { s with indent := indent, indentations := rest }

def markKey (s : Layout) : Layout :=
  if s.keyAllowed then
    let c := s.cursor
    let opens := match s.indentations with
      | i :: _ => i.opensBlock
      | [] => false
    let required := !s.inFlow && s.indent == c.column && opens
    { s with keys := some ⟨c.index, c.line, c.column, s.tokens.size, required⟩ :: s.keys.tail }
  else s

def dropKey (s : Layout) : Except Fault Layout :=
  match s.keys with
  | some k :: ks =>
      if k.required then .error .keyWithoutValue else .ok { s with keys := none :: ks }
  | _ => .ok s

/-- Whether a possible key is on an earlier line or too far back. In a flow
collection no key is. -/
def isStale (s : Layout) (k : PossibleKey) : Bool :=
  !s.inFlow && (k.line < s.cursor.line || k.index + longestKey < s.cursor.index)

def dropStaleKeys (s : Layout) : Except Fault Layout := do
  let keys ← s.keys.mapM fun key? =>
    match key? with
    | none => .ok none
    | some k =>
        if !s.isStale k then .ok (some k)
        else if k.required then .error .keyWithoutValue
        else .ok none
  return { s with keys := keys }

/-- Ends the pair without brackets that is open in the innermost collection. -/
def endPair (s : Layout) : Layout :=
  match s.openPairs with
  | some level :: ps =>
      if level = s.flowLevel then
        { s with inFlowMapping := false, openPairs := none :: ps }.add s.cursor.column
          .flowMappingEnd
      else s
  | _ => s

end Layout
end Yaml
end CreditRating

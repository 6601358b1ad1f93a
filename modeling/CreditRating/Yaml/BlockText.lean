import CreditRating.Yaml.Cursor
import CreditRating.Yaml.Token

/-!
Block scalars: the lines below a header, without their indentation. Literal
scalars keep line breaks and folded ones fold them; the header says what becomes
of the line breaks at the end.
-/

namespace CreditRating
namespace Yaml

inductive Chomping where
  | strip
  | clip
  | keep
  deriving DecidableEq, Repr

def chomping? (c : Char) : Option Chomping :=
  if c == '+' then some .keep else if c == '-' then some .strip else none

structure BlockHeader where
  chomping : Chomping
  /-- The indentation that the header gives, or 0. -/
  increment : Nat
  cursor : Cursor

def increment? (c : Cursor) : Except Fault (Option Nat) :=
  let x := c.peek 0
  if x == '0' then .error .badBlockHeader
  else if x.isDigit then .ok (some (x.toNat - '0'.toNat))
  else .ok none

def blockHeader (c : Cursor) : Except Fault BlockHeader :=
  match chomping? (c.peek 0) with
  | some chomping => do
      let c := c.read 1
      match ← increment? c with
      | some n => return ⟨chomping, n, c.read 1⟩
      | none => return ⟨chomping, 0, c⟩
  | none => do
      match ← increment? c with
      | some n =>
          let c := c.read 1
          match chomping? (c.peek 0) with
          | some chomping => return ⟨chomping, n, c.read 1⟩
          | none => return ⟨.clip, n, c⟩
      | none => return ⟨.clip, 0, c⟩

/-- Moves over empty lines, and over blanks up to the indentation. Counts the
line breaks. -/
def skipIndentation (indent : Nat) : Nat → Cursor → Nat → Cursor × Nat
  | 0, c, breaks => (c, breaks)
  | n + 1, c, breaks =>
      let blanks := (c.span (· == ' ')).length
      let c := c.skip (min blanks (indent - c.column))
      if isBreak (c.peek 0) then skipIndentation indent n c.lineBreak (breaks + 1)
      else (c, breaks)

/-- Moves over empty lines and the blanks of the first line that is not empty.
Counts the line breaks and finds the widest run of blanks. -/
def findIndentation : Nat → Cursor → Nat → Nat → Cursor × Nat × Nat
  | 0, c, breaks, widest => (c, breaks, widest)
  | n + 1, c, breaks, widest =>
      let c := c.skipWhile (· == ' ')
      let widest := max widest c.column
      if isBreak (c.peek 0) then findIndentation n c.lineBreak (breaks + 1) widest
      else (c, breaks, widest)

/-- A block scalar that is being read. -/
structure BlockLines where
  cursor : Cursor
  /-- The content so far, last character first. -/
  text : List Char
  /-- Whether the last content line was ended by a line break. -/
  ended : Bool
  /-- Line breaks on the empty lines after it. -/
  emptyLines : Nat
  /-- Whether the last content line began with white space. -/
  wasIndented : Bool

def BlockLines.between (b : BlockLines) (literal isIndented : Bool) : List Char :=
  if !literal && b.ended && !b.wasIndented && !isIndented then
    if b.emptyLines == 0 then [' '] else List.replicate b.emptyLines '\n'
  else List.replicate (b.emptyLines + if b.ended then 1 else 0) '\n'

def blockLoop (literal : Bool) (indent : Nat) : Nat → BlockLines → BlockLines
  | 0, b => b
  | n + 1, b =>
      let c := b.cursor
      if c.column != indent || c.isAtEnd || (indent == 0 && c.isAtDocumentMark) then b
      else
        let isIndented := isGap (c.peek 0)
        let content := c.span fun x => !isBreakOrEnd x
        let text := content.reverse ++ (b.between literal isIndented ++ b.text)
        let c := c.read content.length
        if c.isAtEnd then ⟨c, text, false, 0, isIndented⟩
        else
          let next := c.lineBreak
          let (next, breaks) := skipIndentation indent (next.rest.length + 1) next 0
          blockLoop literal indent n ⟨next, text, true, breaks, isIndented⟩

/-- The text after the last line, with the line breaks that are kept. -/
def BlockLines.chomped (b : BlockLines) (chomping : Chomping) (indent : Nat) : List Char :=
  let lastBreak := if b.ended then ['\n'] else []
  let added := if b.cursor.isAtEnd && max indent 1 ≤ b.cursor.column then ['\n'] else []
  match chomping with
  | .strip => b.text.reverse
  | .clip => b.text.reverse ++ lastBreak ++ added
  | .keep => b.text.reverse ++ lastBreak ++ added ++ List.replicate b.emptyLines '\n'

/-- The text of a block scalar without content lines at the end of the input. -/
def emptyBlock (chomping : Chomping) (sameLine headerBreak : Bool) (breaks : Nat) : List Char :=
  let lastBreak := if headerBreak then ['\n'] else []
  match chomping with
  | .strip => []
  | .clip => if sameLine then [] else lastBreak
  | .keep =>
      if sameLine then [] else if breaks == 0 then lastBreak else List.replicate breaks '\n'

/-- The block scalar at a place in a block with the given indentation, and the
place after it. -/
def blockText (literal : Bool) (outer : Int) (c : Cursor) : Except Fault (Cursor × List Char) := do
  let header ← blockHeader (c.read 1)
  let after ← header.cursor.skipTrail
  if !isBreakOrEnd (after.peek 0) then .error .badBlockHeader
  let headerBreak := isBreak (after.peek 0)
  let first := if headerBreak then after.lineBreak else after
  if first.peek 0 == '\t' then .error .tabInIndentation
  let fuel := first.rest.length + 1
  let (body, breaks, indent) :=
    if header.increment == 0 then
      let (body, breaks, widest) := findIndentation fuel first 0 0
      let least := max widest (outer + 1).toNat
      (body, breaks, if 0 < outer then max least 1 else least)
    else
      let indent := outer.toNat + header.increment
      let (body, breaks) := skipIndentation indent fuel first 0
      (body, breaks, indent)
  if body.isAtEnd then
    .ok (body, emptyBlock header.chomping (body.line == c.line) headerBreak breaks)
  else if body.column < indent && outer < body.column then .error .badIndentation
  else
    let lines := blockLoop literal indent fuel ⟨body, [], false, breaks, false⟩
    .ok (lines.cursor, lines.chomped header.chomping indent)

end Yaml
end CreditRating

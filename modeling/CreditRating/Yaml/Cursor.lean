import CreditRating.Yaml.Fault

/-!
A place in a YAML text and the ways to move it. The end of the text looks like
the character NUL, which no text contains.
-/

namespace CreditRating
namespace Yaml

def endMark : Char := '\x00'

def isBreak (c : Char) : Bool := c == '\n' || c == '\r'

def isGap (c : Char) : Bool := c == ' ' || c == '\t'

def isBreakOrEnd (c : Char) : Bool := isBreak c || c == endMark

def isGapOrEnd (c : Char) : Bool := isGap c || isBreakOrEnd c

def isFlowIndicator (c : Char) : Bool :=
  c == ',' || c == '[' || c == ']' || c == '\x7b' || c == '\x7d'

def isWordChar (c : Char) : Bool := c.isAlphanum || c == '_' || c == '-'

/-- Drops a byte order mark, which is no content. -/
def withoutMark : List Char → List Char
  | '\ufeff' :: s => s
  | s => s

structure Cursor where
  rest : List Char
  /-- Characters before the place. -/
  index : Nat
  /-- Line breaks before the place. -/
  line : Nat
  /-- Characters before the place on its line. -/
  column : Nat
  /-- Whether only white space precedes the place on its line. -/
  fresh : Bool
  deriving Repr

namespace Cursor

def start (s : List Char) : Cursor := ⟨s, 0, 0, 0, true⟩

def peek (c : Cursor) (n : Nat) : Char := (c.rest[n]?).getD endMark

def isAtEnd (c : Cursor) : Bool := c.peek 0 == endMark

def skip (c : Cursor) (n : Nat) : Cursor :=
  { c with rest := c.rest.drop n, index := c.index + n, column := c.column + n }

def read (c : Cursor) (n : Nat) : Cursor :=
  { c.skip n with fresh := false }

/-- Moves over a line break, of which a carriage return and a line feed are one. -/
def lineBreak (c : Cursor) : Cursor :=
  let n := if c.peek 0 == '\r' && c.peek 1 == '\n' then 2 else 1
  { rest := c.rest.drop n, index := c.index + n, line := c.line + 1, column := 0, fresh := true }

def skipWhile (c : Cursor) (p : Char → Bool) : Cursor :=
  c.skip (c.rest.takeWhile p).length

def span (c : Cursor) (p : Char → Bool) : List Char := c.rest.takeWhile p

def skipLine (c : Cursor) : Cursor := c.skipWhile fun x => !isBreakOrEnd x

/-- Whether one of the marks "---" and "..." stands here. -/
def isAtMark (c : Cursor) (x : Char) : Bool :=
  c.peek 0 == x && c.peek 1 == x && c.peek 2 == x && isGapOrEnd (c.peek 3)

def isAtDocumentMark (c : Cursor) : Bool := c.isAtMark '-' || c.isAtMark '.'

/-- Moves over white space and a comment, up to content or the end of the line.
A comment needs white space before it. -/
def skipTrail (c : Cursor) : Except Fault Cursor :=
  let gap := c.span isGap
  let after := c.skip gap.length
  if after.peek 0 == '#' then
    if gap.isEmpty then .error .commentNotSeparated else .ok after.skipLine
  else .ok after

end Cursor
end Yaml
end CreditRating

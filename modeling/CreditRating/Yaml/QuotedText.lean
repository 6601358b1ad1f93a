import CreditRating.Yaml.PlainText

/-!
Quoted scalars. Between single quotes only a doubled quote is special; between
double quotes a backslash escapes. Line breaks are folded in both.
-/

namespace CreditRating
namespace Yaml

inductive Quote where
  | single
  | double
  deriving DecidableEq, Repr

def Quote.mark : Quote → Char
  | .single => '\''
  | .double => '"'

def simpleEscape? (c : Char) : Option Char :=
  [('0', '\x00'), ('a', '\x07'), ('b', '\x08'), ('t', '\t'), ('\t', '\t'), ('n', '\n'),
    ('v', '\x0b'), ('f', '\x0c'), ('r', '\r'), ('e', '\x1b'), (' ', ' '), ('"', '"'),
    ('/', '/'), ('\\', '\\'), ('N', '\u0085'), ('_', '\u00a0'), ('L', '\u2028'),
    ('P', '\u2029')].lookup c

def escapeDigits? (c : Char) : Option Nat :=
  [('x', 2), ('u', 4), ('U', 8)].lookup c

def hexDigit? (c : Char) : Option Nat :=
  if c.isDigit then some (c.toNat - '0'.toNat)
  else if 'a' ≤ c ∧ c ≤ 'f' then some (c.toNat - 'a'.toNat + 10)
  else if 'A' ≤ c ∧ c ≤ 'F' then some (c.toNat - 'A'.toNat + 10)
  else none

def hexValue? (s : List Char) : Option Nat :=
  s.foldlM (fun n c => (hexDigit? c).map (16 * n + ·)) 0

def charOf? (n : Nat) : Option Char :=
  if h : n.isValidChar then some (Char.ofNatAux n h) else none

def leadingHex? (digits : Nat) (s : List Char) : Option Nat := do
  guard (digits ≤ s.length)
  hexValue? (s.take digits)

/-- The character whose number is written as two surrogates, of which the second
one is still escaped. -/
def pairedChar? (high : Nat) : List Char → Option Char
  | '\\' :: 'u' :: s => do
      let low ← leadingHex? 4 s
      guard (0xdc00 ≤ low ∧ low < 0xe000)
      charOf? (0x10000 + 0x400 * (high - 0xd800) + (low - 0xdc00))
  | _ => none

/-- The character of the escape sequence at a place, and the sequence's length. -/
def escape? (c : Cursor) : Option (Char × Nat) :=
  match simpleEscape? (c.peek 1) with
  | some x => some (x, 2)
  | none => do
      let digits ← escapeDigits? (c.peek 1)
      let n ← leadingHex? digits (c.rest.drop 2)
      if digits = 4 ∧ 0xd800 ≤ n ∧ n < 0xdc00 then
        return (← pairedChar? n (c.rest.drop 6), 12)
      else return (← charOf? n, digits + 2)

structure QuotedPiece where
  cursor : Cursor
  /-- The content, last character first. -/
  text : List Char
  /-- Whether an escaped line break ends the piece. -/
  joined : Bool

def quotedPiece (q : Quote) : Nat → Cursor → List Char → Except Fault QuotedPiece
  | 0, c, text => .ok ⟨c, text, false⟩
  | n + 1, c, text =>
      let x := c.peek 0
      if isGapOrEnd x then .ok ⟨c, text, false⟩
      else if x == q.mark then
        if q = .single ∧ c.peek 1 = '\'' then quotedPiece q n (c.read 2) ('\'' :: text)
        else .ok ⟨c, text, false⟩
      else if q = .double ∧ x = '\\' then
        if isBreak (c.peek 1) then .ok ⟨(c.read 1).lineBreak, text, true⟩
        else match escape? c with
          | some (y, k) => quotedPiece q n (c.read k) (y :: text)
          | none => .error .badEscape
      else quotedPiece q n (c.read 1) (x :: text)

structure QuotedGap where
  cursor : Cursor
  /-- White space on the line of the piece before, last character first. -/
  gap : List Char
  /-- Whether the next piece begins on a line of its own. -/
  newLine : Bool
  /-- Whether the line break before it was not escaped. -/
  broken : Bool
  emptyLines : Nat

def quotedGap (indent : Int) : Nat → QuotedGap → Except Fault QuotedGap
  | 0, g => .ok g
  | n + 1, g =>
      let x := g.cursor.peek 0
      if isGap x then
        if !g.newLine then
          quotedGap indent n { g with cursor := g.cursor.skip 1, gap := x :: g.gap }
        else if x == '\t' && g.cursor.column < indent then .error .tabInIndentation
        else quotedGap indent n { g with cursor := g.cursor.skip 1 }
      else if isBreak x then
        let g := { g with cursor := g.cursor.lineBreak }
        if g.newLine then quotedGap indent n { g with emptyLines := g.emptyLines + 1 }
        else quotedGap indent n { g with gap := [], newLine := true, broken := true }
      else .ok g

/-- What the white space stands for, last character first. -/
def QuotedGap.text (g : QuotedGap) : List Char :=
  if !g.newLine then g.gap
  else if g.broken && g.emptyLines == 0 then [' ']
  else List.replicate g.emptyLines '\n'

/-- Whether the line behind the white space has too little indentation for a text
in a block. A line that only closes the text needs none, and neither does one
behind an escaped line break. -/
def QuotedGap.isShallow (g : QuotedGap) (q : Quote) (indent : Int) : Bool :=
  g.broken && g.cursor.peek 0 != q.mark && g.cursor.column ≤ indent

def quotedLoop (q : Quote) (inFlow : Bool) (indent : Int) :
    Nat → Cursor → List Char → Except Fault (Cursor × List Char)
  | 0, _, _ => .error .unclosedQuote
  | n + 1, c, text =>
      if (c.column == 0 && c.isAtDocumentMark) || c.isAtEnd then .error .unclosedQuote
      else do
        let piece ← quotedPiece q (c.rest.length + 1) c text
        if piece.cursor.peek 0 == q.mark then .ok (piece.cursor.read 1, piece.text)
        else
          let g ← quotedGap indent (c.rest.length + 1) ⟨piece.cursor, [], piece.joined, false, 0⟩
          if !inFlow && g.isShallow q indent then .error .badIndentation
          else quotedLoop q inFlow indent n g.cursor (g.text ++ piece.text)

/-- What may follow a quoted scalar on its line: nothing, the end of an entry in
a flow collection, or the mark of a value, which in a block belongs only to a
scalar of one line. -/
def mayFollowQuote (inFlow sameLine : Bool) (x : Char) : Bool :=
  isBreakOrEnd x || (inFlow && (x == ',' || x == '\x7d' || x == ']' || x == ':')) ||
    (!inFlow && sameLine && x == ':')

/-- The quoted scalar at a place, and the place after it and its white space. -/
def quotedText (q : Quote) (inFlow : Bool) (indent : Int) (c : Cursor) :
    Except Fault (Cursor × List Char) := do
  let (after, text) ← quotedLoop q inFlow indent (c.rest.length + 1) (c.read 1) []
  let after ← after.skipTrail
  if mayFollowQuote inFlow (c.line == after.line) (after.peek 0) then .ok (after, text.reverse)
  else .error .trailingContent

end Yaml
end CreditRating

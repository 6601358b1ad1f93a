import CreditRating.Yaml.Cursor

/-!
Plain scalars: text without quotes, which ends at an indicator, at a comment or
where the indentation ends. Line breaks inside are folded.
-/

namespace CreditRating
namespace Yaml

structure Folding where
  text : List Char
  /-- White space met on the line since the last content. -/
  gap : List Char
  /-- Whether a line break has been met since the last content. -/
  broken : Bool
  /-- Line breaks met since then on empty lines. -/
  emptyLines : Nat
  deriving Repr

namespace Folding

def none : Folding := ⟨[], [], false, 0⟩

def folded (f : Folding) : List Char :=
  if f.broken && f.emptyLines == 0 then [' '] else List.replicate f.emptyLines '\n'

def add (f : Folding) (fresh : Bool) (content : List Char) : Folding :=
  let between := if fresh then f.folded else f.gap
  ⟨content.reverse ++ between ++ f.text, [], false, 0⟩

end Folding

/-- Whether a plain scalar can hold the character before the given next one. -/
def isPlainChar (inFlow : Bool) (c next : Char) : Bool :=
  if c == ':' then !(isGapOrEnd next || (inFlow && isFlowIndicator next))
  else !(inFlow && isFlowIndicator c)

def plainSpan (inFlow : Bool) : List Char → List Char
  | [] => []
  | c :: cs =>
      if isGapOrEnd c || !isPlainChar inFlow c (cs.headD endMark) then []
      else c :: plainSpan inFlow cs

/-- Moves over the white space and line breaks after content. A tab in front of
content may not stand where the indentation is. -/
def skipPlainGap (indent : Int) : Nat → Cursor → Folding → Except Fault (Cursor × Folding)
  | 0, c, f => .ok (c, f)
  | n + 1, c, f =>
      let x := c.peek 0
      if isGap x then
        if !c.fresh then skipPlainGap indent n (c.skip 1) { f with gap := x :: f.gap }
        else if c.column < indent && x == '\t' then do
          let c ← c.skipTrail
          if isBreakOrEnd (c.peek 0) then skipPlainGap indent n c f
          else .error .tabInIndentation
        else skipPlainGap indent n (c.skip 1) f
      else if isBreak x then
        if c.fresh then skipPlainGap indent n c.lineBreak { f with emptyLines := f.emptyLines + 1 }
        else skipPlainGap indent n c.lineBreak { f with gap := [], broken := true }
      else .ok (c, f)

def plainLoop (inFlow : Bool) (indent : Int) :
    Nat → Cursor → Folding → Except Fault (Cursor × Folding)
  | 0, c, f => .ok (c, f)
  | n + 1, c, f =>
      if (c.column == 0 && c.isAtDocumentMark) || c.peek 0 == '#' then .ok (c, f)
      else if inFlow && c.peek 0 == '-' && isFlowIndicator (c.peek 1) then
        .error (.unexpectedCharacter '-')
      else do
        let content := plainSpan inFlow c.rest
        let (c, f) := if content.isEmpty then (c, f)
          else (c.read content.length, f.add c.fresh content)
        if !(isGap (c.peek 0) || isBreak (c.peek 0)) then .ok (c, f)
        else
          let (c, f) ← skipPlainGap indent (c.rest.length + 1) c f
          if !inFlow && c.column < indent then .ok (c, f) else plainLoop inFlow indent n c f

/-- The plain scalar at a place, which may not be empty, and the place after it.
Lines of it are indented at least as far as given. -/
def plainText (inFlow : Bool) (indent : Int) (c : Cursor) :
    Except Fault (Cursor × List Char) := do
  if inFlow && c.column < indent then .error .badIndentation
  let (c, f) ← plainLoop inFlow indent (c.rest.length + 1) c .none
  if f.text.isEmpty then .error .missingContent else .ok (c, f.text.reverse)

end Yaml
end CreditRating

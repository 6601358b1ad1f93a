import CreditRating.Decimal.Notation

/-!
JSON documents, whose members keep their order. The text of one has an item or member a line, two
blanks deeper on each level. Empty arrays and objects stay on one line.
-/

namespace CreditRating
namespace Json

inductive Value where
  | integer (n : Int)
  /-- A binary64 number; one that is not finite is written as null. -/
  | number (x : Float)
  | string (s : String)
  | array (items : List Value)
  | object (members : List (String × Value))
  deriving Repr

/-- The four lower-case hexadecimal digits of a code point below 0x10000. -/
def hexQuad (n : Nat) : List Char :=
  (Nat.toDigits 16 n).leftpad 4 '0'

/-- A character inside a string. Quotes, backslashes and control characters are
escaped; everything else stands for itself. -/
def escapeChar (c : Char) : List Char :=
  if c = '"' then ['\\', '"']
  else if c = '\\' then ['\\', '\\']
  else if c = '\n' then ['\\', 'n']
  else if c = '\r' then ['\\', 'r']
  else if c = '\t' then ['\\', 't']
  else if c = '\x08' then ['\\', 'b']
  else if c = '\x0c' then ['\\', 'f']
  else if c.toNat < 0x20 then '\\' :: 'u' :: hexQuad c.toNat
  else [c]

def quote (s : String) : List Char :=
  '"' :: s.toList.flatMap escapeChar ++ ['"']

def newLine (level : Nat) : List Char :=
  '\n' :: List.replicate (2 * level) ' '

/-- Items between brackets, each on a line of its own one level deeper. -/
def block (opening closing : Char) (level : Nat) : List (List Char) → List Char
  | [] => [opening, closing]
  | items =>
      opening :: newLine (level + 1) ++ (',' :: newLine (level + 1)).intercalate items ++
        newLine level ++ [closing]

mutual

def pretty (level : Nat) : Value → List Char
  | .integer n => (toString n).toList
  | .number x => (Decimal.document.text x).toList
  | .string s => quote s
  | .array items => block '[' ']' level (prettyItems (level + 1) items)
  | .object members => block '\x7b' '\x7d' level (prettyMembers (level + 1) members)

def prettyItems (level : Nat) : List Value → List (List Char)
  | [] => []
  | v :: vs => pretty level v :: prettyItems level vs

def prettyMembers (level : Nat) : List (String × Value) → List (List Char)
  | [] => []
  | (name, v) :: ms =>
      (quote name ++ ':' :: ' ' :: pretty level v) :: prettyMembers level ms

end

end Json
end CreditRating

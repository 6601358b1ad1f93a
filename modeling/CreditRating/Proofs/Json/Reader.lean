import CreditRating.Decimal.Reading
import CreditRating.Yaml.QuotedText

/-!
Reading of JSON documents. A text is read by the grammar of JSON and no more: white
space between tokens only, no comma after the last item, no zero before other
digits, no control character in a string. A number is kept as it is written.
-/

namespace CreditRating
namespace Json

/-- What a document says. -/
inductive Tree where
  | null
  | boolean (b : Bool)
  | number (text : List Char)
  | string (s : String)
  | array (items : List Tree)
  | object (members : List (String × Tree))
  deriving Repr

def isSpace (c : Char) : Bool := c == ' ' || c == '\t' || c == '\n' || c == '\r'

def skipSpace (s : List Char) : List Char := s.dropWhile isSpace

def isWhole : List Char → Bool
  | [] => false
  | ['0'] => true
  | c :: _ => c != '0'

def isExponent : List Char → Bool
  | [] => true
  | c :: s =>
      let digits := (Decimal.takeSign s).2
      (c == 'e' || c == 'E') && digits != [] && digits.all Char.isDigit

/-- What may follow the whole part of a number. -/
def isFraction : List Char → Bool
  | '.' :: s => (Decimal.digitSpan s).1 != [] && isExponent (Decimal.digitSpan s).2
  | s => isExponent s

def isUnsigned (s : List Char) : Bool :=
  isWhole (Decimal.digitSpan s).1 && isFraction (Decimal.digitSpan s).2

def isNumber : List Char → Bool
  | '-' :: s => isUnsigned s
  | s => isUnsigned s

def isWordChar (c : Char) : Bool := c.isAlphanum || c == '+' || c == '-' || c == '.'

def word? (w : List Char) : Option Tree :=
  if w = "null".toList then some .null
  else if w = "true".toList then some (.boolean true)
  else if w = "false".toList then some (.boolean false)
  else if isNumber w then some (.number w)
  else none

/-- The character that a letter after a backslash stands for. -/
def escape? (c : Char) : Option Char :=
  [('"', '"'), ('\\', '\\'), ('/', '/'), ('b', '\x08'), ('f', '\x0c'), ('n', '\n'), ('r', '\r'),
    ('t', '\t')].lookup c

def isHighSurrogate (n : Nat) : Bool := 0xd800 ≤ n && n < 0xdc00

/-- The character that two surrogates stand for. -/
def joined? (high low : Nat) : Option Char :=
  if 0xdc00 ≤ low ∧ low < 0xe000 then
    Yaml.charOf? (0x10000 + 0x400 * (high - 0xd800) + (low - 0xdc00))
  else none

def prepend (c : Char) (r : List Char × List Char) : List Char × List Char :=
  (c :: r.1, r.2)

def readString : List Char → Option (List Char × List Char)
  | [] => none
  | c :: s =>
      if c = '"' then some ([], s)
      else if c = '\\' then
        match s with
        | 'u' :: a :: b :: c :: d :: s => do
            let n ← Yaml.hexValue? [a, b, c, d]
            if isHighSurrogate n then
              match s with
              | '\\' :: 'u' :: e :: f :: g :: h :: s =>
                  let x ← joined? n (← Yaml.hexValue? [e, f, g, h])
                  (readString s).map (prepend x)
              | _ => none
            else
              let x ← Yaml.charOf? n
              (readString s).map (prepend x)
        | c :: s => (escape? c).bind fun x => (readString s).map (prepend x)
        | [] => none
      else if c.toNat < 0x20 then none
      else (readString s).map (prepend c)

/-- Whether a comma or the closing mark comes next, and what follows it. -/
def goesOn? (closing : Char) (s : List Char) : Option (Bool × List Char) :=
  match skipSpace s with
  | [] => none
  | c :: s =>
      if c = ',' then some (true, s)
      else if c = closing then some (false, s)
      else none

mutual

/-- The value at the beginning of a text, and what follows it. -/
def readValue : Nat → List Char → Option (Tree × List Char)
  | 0, _ => none
  | n + 1, s =>
      match skipSpace s with
      | '"' :: s => (readString s).map fun r => (.string (String.ofList r.1), r.2)
      | '[' :: s =>
          match skipSpace s with
          | ']' :: s => some (.array [], s)
          | s => (readItems n s).map fun r => (.array r.1, r.2)
      | '\x7b' :: s =>
          match skipSpace s with
          | '\x7d' :: s => some (.object [], s)
          | s => (readMembers n s).map fun r => (.object r.1, r.2)
      | s => (word? (s.takeWhile isWordChar)).map fun v => (v, s.dropWhile isWordChar)

def readItems : Nat → List Char → Option (List Tree × List Char)
  | 0, _ => none
  | n + 1, s => do
      let (v, s) ← readValue n s
      let (more, s) ← goesOn? ']' s
      (if more then readItems n s else some ([], s)).map fun r => (v :: r.1, r.2)

def readMembers : Nat → List Char → Option (List (String × Tree) × List Char)
  | 0, _ => none
  | n + 1, s =>
      match skipSpace s with
      | '"' :: s => do
          let (name, s) ← readString s
          match skipSpace s with
          | ':' :: s =>
              let (v, s) ← readValue n s
              let (more, s) ← goesOn? '\x7d' s
              (if more then readMembers n s else some ([], s)).map fun r =>
                ((String.ofList name, v) :: r.1, r.2)
          | _ => none
      | _ => none

end

def read (s : String) : Option Tree := do
  let (v, rest) ← readValue (s.length + 1) s.toList
  if skipSpace rest = [] then return v else none

example : (read "[1,]").isNone := by decide +kernel

example : (read "[01]").isNone := by decide +kernel

example : (read " [ -1.5e+3 , \"\\u00e9\\ud83d\\ude00\" , null ] ").isSome := by decide +kernel

end Json
end CreditRating

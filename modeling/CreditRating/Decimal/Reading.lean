/-!
Numbers read from text. The grammar is an optional sign, digits with an optional
point among or around them, and an optional exponent; the words for infinity and
NaN are read in either case. A decimal is rounded to the nearest binary64 number,
a half to the even one, and one too large becomes infinite.
-/

namespace CreditRating
namespace Decimal

def digitSpan (s : List Char) : List Char × List Char :=
  (s.takeWhile Char.isDigit, s.dropWhile Char.isDigit)

def digitValue (s : List Char) : Nat :=
  s.foldl (fun n c => 10 * n + (c.toNat - '0'.toNat)) 0

def takeSign : List Char → Bool × List Char
  | '-' :: s => (true, s)
  | '+' :: s => (false, s)
  | s => (false, s)

/-- An integer: an optional sign and at least one digit. -/
def readInt? (s : List Char) : Option Int :=
  let (negative, digits) := takeSign s
  if digits ≠ [] ∧ digits.all Char.isDigit then
    some (if negative then -(digitValue digits : Int) else digitValue digits)
  else none

/-- An exponent with its letter; no text at all means 0. -/
def readExponent? : List Char → Option Int
  | [] => some 0
  | c :: s => if c = 'e' ∨ c = 'E' then readInt? s else none

/-- A decimal without sign as a coefficient and a power of ten. -/
def readScaled? (s : List Char) : Option (Nat × Int) :=
  let (whole, rest) := digitSpan s
  let (fraction, rest) := match rest with
    | '.' :: r => digitSpan r
    | r => ([], r)
  if whole = [] ∧ fraction = [] then none
  else (readExponent? rest).map fun e =>
    (digitValue (whole ++ fraction), e - fraction.length)

/-- The binary64 number nearest to `m * 10 ^ e`. -/
def round (m : Nat) (e : Int) : Float :=
  .ofModel (.ofScientific m e)

def infinity : Float := 1 / 0

def notANumber : Float := 0 / 0

def readUnsigned? (s : List Char) : Option Float :=
  let lower := s.map Char.toLower
  if lower = "inf".toList ∨ lower = "infinity".toList then some infinity
  else if lower = "nan".toList then some notANumber
  else (readScaled? s).map fun (m, e) => round m e

def read? (s : List Char) : Option Float :=
  let (negative, rest) := takeSign s
  (readUnsigned? rest).map fun x => if negative then -x else x

end Decimal
end CreditRating

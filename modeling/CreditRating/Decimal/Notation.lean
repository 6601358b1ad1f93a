import CreditRating.Decimal.Fixed
import CreditRating.Decimal.Shortest

/-!
How the shortest decimal of a number is written down. A notation says which
numbers are written without an exponent, whether a whole number has a fraction,
and how an exponent looks.
-/

namespace CreditRating
namespace Decimal

/-- The decisions of one way to write numbers. -/
structure Notation where
  /-- The place values of the first digit for which no exponent is written. -/
  positional : Int → Bool
  /-- Whether a whole number without exponent ends in ".0". -/
  pointZero : Bool
  /-- Whether a positive exponent has a sign. -/
  exponentPlus : Bool
  tie : Tie
  notANumber : String
  /-- The text of an infinity, by whether it is the negative one. -/
  infinite : Bool → String

/-- All digits, never an exponent, a whole number without a fraction. -/
def plain : Notation where
  positional _ := true
  pointZero := false
  exponentPlus := false
  tie := .upper
  notANumber := "NaN"
  infinite negative := signText .hidden negative ++ "inf"

/-- The notation of log fields: an exponent below 0.0001 and from 10^16 on. -/
def logged : Notation where
  positional k := -4 ≤ k && k < 16
  pointZero := true
  exponentPlus := false
  tie := .upper
  notANumber := "NaN"
  infinite negative := signText .hidden negative ++ "inf"

/-- The notation of JSON documents: an exponent below 0.00001 and from 10^16 on.
JSON has no number that is not finite. -/
def document : Notation where
  positional k := -5 ≤ k && k < 16
  pointZero := true
  exponentPlus := true
  tie := .even
  notANumber := "null"
  infinite _ := "null"

/-- Digits of which the first has the place value `10 ^ k`, with the point or the
zeros that this needs. -/
def positionalText (pointZero : Bool) (digits : List Char) (k : Int) : String :=
  if k < 0 then
    String.ofList ('0' :: '.' :: List.replicate (-k - 1).toNat '0' ++ digits)
  else
    let whole := digits.take (k.toNat + 1)
    let fraction := digits.drop (k.toNat + 1)
    let whole := whole ++ List.replicate (k.toNat + 1 - whole.length) '0'
    if fraction = [] then String.ofList whole ++ (if pointZero then ".0" else "")
    else String.ofList (whole ++ '.' :: fraction)

def exponentText (plus : Bool) (k : Int) : String :=
  if k < 0 then "e-" ++ toString k.natAbs
  else (if plus then "e+" else "e") ++ toString k.natAbs

def scientificText (plus : Bool) (digits : List Char) (k : Int) : String :=
  let mantissa := match digits with
    | [] => []
    | [d] => [d]
    | d :: ds => d :: '.' :: ds
  String.ofList mantissa ++ exponentText plus k

def Notation.unsigned (n : Notation) (s : Scaled) : String :=
  let digits := Nat.toDigits 10 s.coefficient
  let k := s.power + (digits.length - 1 : Nat)
  if n.positional k then positionalText n.pointZero digits k
  else scientificText n.exponentPlus digits k

def Notation.ofParts (n : Notation) : Parts → String
  | .finite negative m e =>
      signText .hidden negative ++
        if m = 0 then positionalText n.pointZero ['0'] 0 else n.unsigned (shortest n.tie m e)
  | .notANumber => n.notANumber
  | .infinite negative => n.infinite negative

def Notation.text (n : Notation) (x : Float) : String :=
  n.ofParts (.ofFloat x)

end Decimal

def plainText (x : Float) : String :=
  Decimal.plain.text x

end CreditRating

/-!
Numbers with a fixed count of places. The exact quantity is rounded to the grid
of the last place, and a half goes to the even neighbour.
-/

namespace CreditRating
namespace Decimal

open Float.Model (UnpackedFloat)

/-- A number as sign, mantissa and binary exponent. Zero has the mantissa 0. -/
inductive Parts where
  | notANumber
  | infinite (negative : Bool)
  | finite (negative : Bool) (mantissa : Nat) (exponent : Int)
  deriving DecidableEq, Repr

def Parts.isNegativeSign : Float.Model.UnpackedFloat.Sign → Bool
  | .negative => true
  | .positive => false

def Parts.ofUnpacked : UnpackedFloat → Parts
  | .notANumber => .notANumber
  | .infinity s => .infinite (isNegativeSign s)
  | .zero s => .finite (isNegativeSign s) 0 0
  | .finite s m e _ => .finite (isNegativeSign s) m e

def Parts.ofFloat (x : Float) : Parts :=
  .ofUnpacked x.toModel.unpack

/-- The quantity `m * 2 ^ e` as a numerator over a positive denominator. -/
def ratio (m : Nat) (e : Int) : Nat × Nat :=
  (m * Nat.pow 2 e.toNat, Nat.pow 2 (-e).toNat)

/-- The natural number nearest to a quotient; a half goes to the even one. -/
def nearestEven (num den : Nat) : Nat :=
  let q := num / den
  let r := num % den
  if 2 * r < den then q
  else if 2 * r = den then q + q % 2
  else q + 1

def withPoint (places n : Nat) : String :=
  let s := (Nat.toDigits 10 n).leftpad (places + 1) '0'
  if places = 0 then String.ofList s
  else String.ofList (s.take (s.length - places) ++ '.' :: s.drop (s.length - places))

inductive Plus where
  | hidden
  | shown
  deriving DecidableEq, Repr

def signText (plus : Plus) (negative : Bool) : String :=
  if negative then "-" else match plus with
    | .hidden => ""
    | .shown => "+"

def fixedParts (plus : Plus) (places : Nat) : Parts → String
  | .notANumber => "NaN"
  | .infinite negative => signText plus negative ++ "inf"
  | .finite negative m e =>
      let r := ratio m e
      signText plus negative ++ withPoint places (nearestEven (r.1 * Nat.pow 10 places) r.2)

/-- The number with the given count of places. Negative zero keeps its sign, and
so does a negative number that rounds to zero. -/
def fixed (places : Nat) (x : Float) : String :=
  fixedParts .hidden places (.ofFloat x)

def fixedSigned (places : Nat) (x : Float) : String :=
  fixedParts .shown places (.ofFloat x)

end Decimal
end CreditRating

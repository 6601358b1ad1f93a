import CreditRating.Decimal.Fixed

/-!
The shortest decimal that reads back as a given binary64 number. Decimal grids
are tried from coarse to fine; the first grid that has a point among the reals
that round to the number gives the digits, and of two such points the nearer one
is taken. The number itself lies on a fine enough grid, so there is always an
answer.
-/

namespace CreditRating
namespace Decimal

/-- The reals that round to a positive number, in units of `2 ^ unit`: from
`low` to `high` around `mid`, with the ends if `closed`. -/
structure Basin where
  low : Nat
  mid : Nat
  high : Nat
  unit : Int
  closed : Bool
  deriving DecidableEq, Repr

def leastExponent : Int := -1074

def leastMantissa : Nat := Nat.pow 2 52

/-- Below a power of two the neighbour is half as far away as above it. -/
def Basin.around (m : Nat) (e : Int) : Basin where
  low := if m = leastMantissa ∧ leastExponent < e then 4 * m - 1 else 4 * m - 2
  mid := 4 * m
  high := 4 * m + 2
  unit := e - 2
  closed := m % 2 = 0

/-- Which of two equally near points is taken. -/
inductive Tie where
  | upper
  | even
  deriving DecidableEq, Repr

/-- The decimal `coefficient * 10 ^ power`. -/
structure Scaled where
  coefficient : Nat
  power : Int
  deriving DecidableEq, Repr

namespace Basin

/-- What one unit of the basin is, and what one step of the grid `10 ^ p` is, in
a measure that makes both natural numbers. -/
def measures (b : Basin) (p : Int) : Nat × Nat :=
  (Nat.pow 2 b.unit.toNat * Nat.pow 10 (-p).toNat,
    Nat.pow 2 (-b.unit).toNat * Nat.pow 10 p.toNat)

def holds (b : Basin) (p : Int) (c : Nat) : Bool :=
  let (u, g) := b.measures p
  if b.closed then b.low * u ≤ c * g && c * g ≤ b.high * u
  else b.low * u < c * g && c * g < b.high * u

/-- Whether the middle counts as nearer to the point below it than to the one
above, where `r` of a step `g` lies between it and the point `c` below. -/
def fallsBack (tie : Tie) (c r g : Nat) : Bool :=
  2 * r < g || (2 * r == g && tie == .even && c % 2 == 0)

/-- The point of the grid `10 ^ p` in the basin that is nearest to the middle,
among the two that surround the middle. -/
def onGrid? (b : Basin) (tie : Tie) (p : Int) : Option Scaled :=
  let (u, g) := b.measures p
  let c := b.mid * u / g
  let nearer := if fallsBack tie c (b.mid * u % g) g then [c, c + 1] else [c + 1, c]
  (nearer.find? (b.holds p)).map (⟨·, p⟩)

def exact (b : Basin) : Scaled :=
  ⟨b.mid * Nat.pow 2 b.unit.toNat * Nat.pow 5 (-b.unit).toNat, min b.unit 0⟩

/-- A power of ten above the middle: three tenths bound the logarithm of two from
below, and 0.30103 from above. -/
def topPower (b : Basin) : Int :=
  let bits : Int := b.mid.log2 + 1 + b.unit
  max (bits * 30103 / 100000) (bits * 3 / 10) + 1

def gridCount : Nat := 24

def shortest (b : Basin) (tie : Tie) : Scaled :=
  ((List.range gridCount).findSome? fun (i : Nat) => b.onGrid? tie (b.topPower - i)).getD b.exact

end Basin

/-- The shortest decimal for the positive number `m * 2 ^ e`. -/
def shortest (tie : Tie) (m : Nat) (e : Int) : Scaled :=
  (Basin.around m e).shortest tie

end Decimal
end CreditRating

/-!
The seven rating bands and the least score of each. Every number has a band: one
above all floors has the best, and a negative number or NaN has the worst.
-/

namespace CreditRating

/-- The bands from the worst to the best. -/
inductive Rating where
  | d
  | b
  | bb
  | bbb
  | a
  | aa
  | aaa
  deriving DecidableEq, Repr

namespace Rating

def all : List Rating := [aaa, aa, a, bbb, bb, b, d]

def label : Rating → String
  | aaa => "AAA"
  | aa => "AA"
  | a => "A"
  | bbb => "BBB"
  | bb => "BB"
  | b => "B"
  | d => "D"

def rank (r : Rating) : Nat := r.ctorIdx

instance : LE Rating := ⟨fun r s => r.rank ≤ s.rank⟩

instance : LT Rating := ⟨fun r s => r.rank < s.rank⟩

instance (r s : Rating) : Decidable (r ≤ s) := inferInstanceAs (Decidable (r.rank ≤ s.rank))

instance (r s : Rating) : Decidable (r < s) := inferInstanceAs (Decidable (r.rank < s.rank))

def isInvestmentGrade (r : Rating) : Bool := bbb ≤ r

/-- The least score of each band that has one, best band first. -/
def floors : List (Float × Rating) :=
  [(0.85, aaa), (0.70, aa), (0.60, a), (0.50, bbb), (0.40, bb), (0.30, b)]

/-- The band of a score: the first whose floor the score reaches. -/
def ofScore (score : Float) : Rating :=
  ((floors.find? fun f => f.1 ≤ score).map (·.2)).getD d

end Rating
end CreditRating

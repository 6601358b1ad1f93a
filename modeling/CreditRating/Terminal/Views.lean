import CreditRating.Batch
import CreditRating.Terminal.Style

/-!
What the terminal shows of a batch: the table of scored clients, the summary by
band, the rejected records and the steps of one score. Padding comes before
colour, so that columns do not depend on it.
-/

namespace CreditRating
namespace Terminal

open Text (alignLeft alignRight)
open Decimal (fixed fixedSigned)

def ratingWidth : Nat := 3

/-- A band in its column: green from BBB up, red and bold for D, else yellow. -/
def ratingCell (colors : Colors) (r : Rating) : String :=
  let cell := alignLeft ratingWidth r.label
  if r = .d then colors.paint bold (colors.paint red cell)
  else if r.isInvestmentGrade then colors.paint green cell
  else colors.paint yellow cell

def nameWidth : Nat := 24

/-- A name that fits its column; what is cut off is marked by three points. -/
def shortName (s : String) : String :=
  if s.length ≤ nameWidth then s
  else String.ofList (s.toList.take (nameWidth - 3)) ++ "..."

def leastIdWidth : Nat := 8

def idWidth (rs : List Scored) : Nat :=
  rs.foldl (fun w r => max w r.client.id.length) leastIdWidth

def tableRow (colors : Colors) (width number : Nat) (r : Scored) : String :=
  colors.paint dimmed (alignRight 3 (toString number) ++ ".") ++ " " ++
    colors.paint bold (alignLeft width r.client.id) ++ "  " ++
    alignRight 5 (fixed 2 r.client.score) ++ "  " ++
    ratingCell colors r.rating ++ "  " ++
    shortName r.client.name ++ " (" ++ colors.paint cyan r.client.country ++ ")"

/-- The lines of scored clients, of which the first has the given number. -/
def tableRows (colors : Colors) (width number : Nat) : List Scored → List String
  | [] => []
  | r :: rs => tableRow colors width number r :: tableRows colors width (number + 1) rs

/-- The table of scored clients, without a line end behind the last line. -/
def scoreTable (colors : Colors) (rs : List Scored) : String :=
  if rs = [] then "No clients scored."
  else "\n".intercalate (tableRows colors (idWidth rs) 1 rs)

def distribution (rs : List Scored) : List (Rating × Nat) :=
  Rating.all.map fun band => (band, rs.countP fun r => r.rating = band)

def longestBar : Nat := 40

def distributionLine (colors : Colors) (entry : Rating × Nat) : String :=
  "  " ++ ratingCell colors entry.1 ++ "  " ++ alignRight 4 (toString entry.2) ++ "  " ++
    String.ofList (List.replicate (min entry.2 longestBar) '#') ++ "\n"

def summary (colors : Colors) (o : Outcome) : String :=
  let rejected := toString o.rejected.length
  colors.paint bold (toString o.results.length) ++ " clients scored, " ++
    (if o.rejected = [] then rejected else colors.paint red rejected) ++ " rejected\n" ++
    String.join ((distribution o.results).map (distributionLine colors))

def rejectionLines (rs : List Rejection) : List String :=
  rs.flatMap fun r => r.reasons.map fun reason => reason ++ " (" ++ r.id ++ ")"

def rejections (rs : List Rejection) : String :=
  "\n".intercalate (rejectionLines rs)

def labelWidth : Nat := 18

structure ShownStep where
  label : String
  description : String
  before : Float
  after : Float
  deriving Repr

def ShownStep.line (s : ShownStep) : String :=
  "  " ++ alignLeft labelWidth s.label ++ " " ++
    alignRight 7 (fixedSigned 3 (s.after - s.before)) ++ "  " ++
    fixed 3 s.before ++ " -> " ++ fixed 3 s.after ++ "  " ++ s.description

/-- A score as it is shown, with the total before it was brought into [0, 1]. -/
structure ShownScore where
  steps : List ShownStep
  unclamped : Float
  score : Float
  deriving Repr

/-- The last line: the score, and the total if the two compare as different. -/
def ShownScore.lastLine (s : ShownScore) : String :=
  "  " ++ alignLeft labelWidth "Score" ++ " " ++ fixed 3 s.score ++
    if s.score != s.unclamped then " (clamped from " ++ fixed 3 s.unclamped ++ ")" else ""

def ShownScore.text (colors : Colors) (c : Client) (s : ShownScore) : String :=
  "\n".intercalate
    (colors.paint bold (c.id ++ " " ++ c.name) :: s.steps.map ShownStep.line ++ [s.lastLine])

def ShownStep.ofStep (s : Step) : ShownStep :=
  ⟨s.finding.label, s.finding.description, s.before, s.after⟩

def ShownScore.ofBreakdown (b : Breakdown) : ShownScore :=
  ⟨b.steps.map .ofStep, b.unclamped, b.score⟩

def breakdown (colors : Colors) (c : Client) (b : Breakdown) : String :=
  (ShownScore.ofBreakdown b).text colors c

end Terminal
end CreditRating

import CreditRating.Log
import CreditRating.Policy
import CreditRating.Rating
import CreditRating.Score
import CreditRating.Client

/-!
Scoring of a list of clients. Each client is either scored and rated or rejected
with reasons; both kinds keep the order of the input, and a batch in which no
client is scored fails.
-/

namespace CreditRating

structure Scored where
  client : Client
  rating : Rating
  deriving DecidableEq, Repr

/-- A client that was not scored. Rows count from 1. -/
structure Rejection where
  row : Nat
  id : String
  reasons : List String
  deriving DecidableEq, Repr

structure Outcome where
  results : List Scored
  rejected : List Rejection
  deriving DecidableEq, Repr

structure NoValidEntries where
  rejected : List Rejection
  deriving DecidableEq, Repr

def NoValidEntries.message (f : NoValidEntries) : String :=
  "No valid entries to score (" ++ toString f.rejected.length ++ " rejected)"

structure Pipeline where
  weights : Table
  engine : Engine
  deriving BEq, Repr

namespace Pipeline

/-- The pipeline of a policy that breaks no rule. -/
def ofPolicy (p : Policy) : Except (List PolicyViolation) Pipeline :=
  if p.violations.isEmpty then .ok ⟨p.weightTable, p.engine⟩ else .error p.violations

def explain (p : Pipeline) (c : Client) : Breakdown :=
  CreditRating.explain p.engine p.weights c

def process (p : Pipeline) (row : Nat) (c : Client) : Except Rejection Scored :=
  if c.isValid then
    let s := score p.engine p.weights c
    .ok ⟨{ c with score := s }, .ofScore s⟩
  else .error ⟨row, c.id, c.reasons row⟩

/-- The results of the clients, of which the first has the given row. -/
def processFrom (p : Pipeline) (row : Nat) : List Client → List (Except Rejection Scored)
  | [] => []
  | c :: cs => p.process row c :: p.processFrom (row + 1) cs

def processAll (p : Pipeline) (cs : List Client) : List (Except Rejection Scored) :=
  p.processFrom 1 cs

end Pipeline

def scored? : Except Rejection Scored → Option Scored
  | .ok s => some s
  | .error _ => none

def rejection? : Except Rejection Scored → Option Rejection
  | .ok _ => none
  | .error r => some r

/-- Splits results into the two kinds. -/
def Outcome.ofResults (rs : List (Except Rejection Scored)) : Outcome :=
  ⟨rs.filterMap scored?, rs.filterMap rejection?⟩

def Pipeline.run (p : Pipeline) (cs : List Client) : Except NoValidEntries Outcome :=
  let o := Outcome.ofResults (p.processAll cs)
  if o.results.isEmpty then .error ⟨o.rejected⟩ else .ok o

def resultEvents : Except Rejection Scored → List Log.Event
  | .ok s =>
      [⟨.batch, .debug, "scored client", [("client", s.client.id),
        ("score", Decimal.logged.text s.client.score), ("rating", s.rating.label)]⟩]
  | .error r =>
      r.reasons.map (fun reason => ⟨.screening, .warn, reason, [("client", r.id)]⟩) ++
        [⟨.batch, .warn, "Skipping invalid client entry",
          [("client", r.id), ("row", toString r.row)]⟩]

def Outcome.event (o : Outcome) : Log.Event :=
  ⟨.batch, .info, "batch scored", [("scored", toString o.results.length),
    ("rejected", toString o.rejected.length)]⟩

/-- All that is logged while a batch is scored. -/
def Pipeline.events (p : Pipeline) (cs : List Client) : List Log.Event :=
  (p.processAll cs).flatMap resultEvents ++
    match p.run cs with
    | .ok o => [o.event]
    | .error _ => []

end CreditRating

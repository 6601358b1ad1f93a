import CreditRating.Batch
import CreditRating.Csv
import Std.Time.DateTime.PlainDateTime

/-!
The ratings report: a record for each scored client under a header, and the name
of the file that it is written to.
-/

namespace CreditRating
namespace Report

def header : List String := ["ClientID", "Score", "Rating"]

def record (r : Scored) : List String :=
  [r.client.id, Decimal.fixed 2 r.client.score, r.rating.label]

/-- The text of the report. -/
def render (rs : List Scored) : String :=
  String.ofList (Csv.writeRecords ((header :: rs.map record).map fun r => r.map (·.toList)))

structure Moment where
  year : Int
  month : Nat
  day : Nat
  hour : Nat
  minute : Nat
  second : Nat
  deriving DecidableEq, Repr

def momentOf (t : Std.Time.PlainDateTime) : Moment where
  year := t.date.year
  month := t.date.month.val.toNat
  day := t.date.day.val.toNat
  hour := t.time.hour.val.toNat
  minute := t.time.minute.val.toNat
  second := t.time.second.val.toNat

/-- A year with at least four digits. One before the year 0 has a minus sign and
one after 9999 a plus sign. -/
def yearText (year : Int) : String :=
  let sign := if year < 0 then "-" else if 9999 < year then "+" else ""
  sign ++ Text.zeroPadded 4 year.natAbs

/-- The moment to the minute. -/
def stamp (m : Moment) : String :=
  yearText m.year ++ Text.zeroPadded 2 m.month ++ Text.zeroPadded 2 m.day ++ "_" ++
    Text.zeroPadded 2 m.hour ++ Text.zeroPadded 2 m.minute

def nameOf (stamp : String) : String :=
  "credit_ratings_" ++ stamp ++ ".csv"

/-- The name of a report written at a moment. The number, of which six digits
are kept, tells reports of one minute apart. -/
def fileName (m : Moment) (number : Nat) : String :=
  nameOf (stamp m ++ "_" ++ Text.zeroPadded 6 (number % 1000000))

end Report
end CreditRating

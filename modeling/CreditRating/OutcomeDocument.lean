import CreditRating.Batch
import CreditRating.Json

/-!
The JSON document of a batch: its results and its rejected records, in order.
-/

namespace CreditRating

open Json (Value)

def Client.toJson (c : Client) : Value :=
  .object [
    ("id", .string c.id),
    ("name", .string c.name),
    ("country", .string c.country),
    ("client_type", .string c.clientType),
    ("age", .integer c.age.toInt),
    ("income", .number c.income),
    ("employment", .string c.employment),
    ("industry", .string c.industry),
    ("debt", .number c.debt),
    ("score", .number c.score)]

def Scored.toJson (s : Scored) : Value :=
  .object [("client", s.client.toJson), ("rating", .string s.rating.label)]

def Rejection.toJson (r : Rejection) : Value :=
  .object [("row", .integer r.row), ("id", .string r.id),
    ("reasons", .array (r.reasons.map .string))]

def Outcome.toJson (o : Outcome) : Value :=
  .object [("results", .array (o.results.map (·.toJson))),
    ("rejected", .array (o.rejected.map (·.toJson)))]

def Outcome.document (o : Outcome) : String :=
  String.ofList (Json.pretty 0 o.toJson)

end CreditRating

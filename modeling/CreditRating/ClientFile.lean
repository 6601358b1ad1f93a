import CreditRating.Client
import CreditRating.Csv
import CreditRating.Decimal.Reading
import CreditRating.Files.Store
import CreditRating.Text
import CreditRating.Text.Utf8

/-!
Reading of client files: comma-separated records of nine fields below a header.
The first record that is no client makes the whole file fail.
-/

namespace CreditRating

inductive NumberColumn where
  | age
  | income
  | debt
  deriving DecidableEq, Repr

def NumberColumn.label : NumberColumn → String
  | age => "age"
  | income => "income"
  | debt => "debt"

inductive ReadFault where
  | file (fault : FileFault)
  /-- A field is not UTF-8 beyond a number of bytes. -/
  | notText (position : Csv.Position) (field : Nat) (validBytes : Nat)
  deriving DecidableEq, Repr

def ReadFault.message : ReadFault → String
  | file fault => fault.message
  | notText p field validBytes =>
      "CSV parse error: record " ++ toString p.records ++ " (line " ++ toString p.line ++
        ", field: " ++ toString field ++ ", byte: " ++ toString p.bytes ++
        "): invalid utf-8: invalid UTF-8 in field " ++ toString field ++ " near byte index " ++
        toString validBytes

inductive LoadError where
  | unopened (path : String) (fault : FileFault)
  | unreadable (line : Nat) (fault : ReadFault)
  | fieldCount (line : Nat) (found : Nat)
  | invalidNumber (line : Nat) (column : NumberColumn) (value : String)
  | missingId (line : Nat)
  | noClients
  deriving DecidableEq, Repr

namespace ClientFile

/-- The fields of a record: id, name, country, client type, age, income,
employment, industry, debt. -/
def fieldCount : Nat := 9

end ClientFile

def LoadError.message : LoadError → String
  | unopened path fault => "could not open input file " ++ path ++ ": " ++ fault.message
  | unreadable line fault => "line " ++ toString line ++ ": " ++ fault.message
  | fieldCount line found =>
      "line " ++ toString line ++ ": expected " ++ toString ClientFile.fieldCount ++
        " fields, found " ++ toString found
  | invalidNumber line column value =>
      "line " ++ toString line ++ ": invalid " ++ column.label ++ " '" ++ value ++ "'"
  | missingId line => "line " ++ toString line ++ ": missing client id"
  | noClients => "input contains no client rows"

namespace ClientFile

/-- The white space that is taken off a field before it is decoded. -/
def isAsciiBlank (b : UInt8) : Bool :=
  b == 0x20 || b == 0x09 || b == 0x0A || b == 0x0C || b == 0x0D

/-- The text of a field without white space around it, or the number of its
bytes that are UTF-8. -/
def readField (bs : List UInt8) : Except Nat (List Char) :=
  (Utf8.decode (Text.trimBoth isAsciiBlank bs)).map Text.trim

/-- The texts of the fields, of which the first has the given number. -/
def readFields (position : Csv.Position) (number : Nat) :
    List (List UInt8) → Except ReadFault (List (List Char))
  | [] => .ok []
  | f :: fs =>
      match readField f with
      | .error validBytes => .error (.notText position number validBytes)
      | .ok s => (readFields position (number + 1) fs).map (s :: ·)

def readAge? (s : List Char) : Option Int32 :=
  match Decimal.readInt? s with
  | some n =>
      if Int32.minValue.toInt ≤ n ∧ n ≤ Int32.maxValue.toInt then some (Int32.ofInt n) else none
  | none => none

def number {α : Type} (line : Nat) (column : NumberColumn) (read? : List Char → Option α)
    (s : List Char) : Except LoadError α :=
  match read? s with
  | some x => .ok x
  | none => .error (.invalidNumber line column (String.ofList s))

def clientOf (line : Nat) : List (List Char) → Except LoadError Client
  | [id, name, country, clientType, age, income, employment, industry, debt] =>
      if id = [] then .error (.missingId line)
      else do
        let age ← number line .age readAge? age
        let income ← number line .income Decimal.read? income
        let debt ← number line .debt Decimal.read? debt
        return {
          id := String.ofList id
          name := String.ofList name
          country := String.ofList country
          clientType := String.ofList clientType
          age := age
          income := income
          employment := String.ofList employment
          industry := String.ofList industry
          debt := debt
          score := 0.0 }
  | fields => .error (.fieldCount line fields.length)

/-- The client of a record. A field that is no text is reported at the position
at which the reader was asked for the record. -/
def readRow (asked : Csv.Position) (r : Csv.Row) : Except LoadError Client :=
  match readFields asked 0 r.fields with
  | .error fault => .error (.unreadable asked.line fault)
  | .ok fields => clientOf r.start.line fields

/-- The clients of the records after the first two. -/
def readRows (rs : List Csv.Row) : Except LoadError (List Client) :=
  rs.mapM fun r => readRow r.start r

/-- The clients of all records. The first record is the header, whatever it says;
the reader takes it together with the record after it. -/
def readRecords : List Csv.Row → Except LoadError (List Client)
  | _ :: r :: rs => do
      let c ← readRow .origin r
      let cs ← readRows rs
      return c :: cs
  | _ => .error .noClients

/-- The clients of a file's content. -/
def parse (bs : List UInt8) : Except LoadError (List Client) :=
  readRecords (Csv.rows bs)

def load {m : Type → Type} [Monad m] [FileStore m] (path : String) :
    m (Except LoadError (List Client)) := do
  match ← FileStore.read (.ofString path) with
  | .ok bytes => return parse bytes
  | .error (.opening fault) => return .error (.unopened path fault)
  | .error (.after fault) => return .error (.unreadable Csv.Position.origin.line (.file fault))

end ClientFile
end CreditRating

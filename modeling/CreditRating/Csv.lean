/-!
Comma-separated records, read and written. The reader looks at one byte at a time, so
what it makes of a text followed by another depends only on where the first one
leaves it. Records keep the position at which their reading began. The writer quotes
a field only where the reader would misread it.
-/

namespace CreditRating
namespace Csv

/-- How much has been read: whole records, line feeds, and bytes. -/
structure Position where
  records : Nat
  feeds : Nat
  bytes : Nat
  deriving DecidableEq, Repr

def Position.origin : Position := ⟨0, 0, 0⟩

def Position.line (p : Position) : Nat := p.feeds + 1

structure Row where
  /-- The end of the record before, ahead of any empty lines between the two. -/
  start : Position
  fields : List (List UInt8)
  deriving DecidableEq, Repr

def comma : UInt8 := 0x2C
def quote : UInt8 := 0x22
def lineFeed : UInt8 := 0x0A
def carriageReturn : UInt8 := 0x0D

def isLineEnd (b : UInt8) : Bool := b == lineFeed || b == carriageReturn

/-- Where the reader stands. -/
inductive Mode where
  /-- Between records, where line ends are skipped. -/
  | recordStart
  | fieldStart
  /-- In a field in which a quote is an ordinary byte. -/
  | bare
  | quoted
  /-- After a quote in a quoted field: its end, or half of a doubled quote. -/
  | quoteSeen
  deriving DecidableEq, Repr

structure State where
  mode : Mode
  /-- The bytes of the field that is being read, last byte first. -/
  field : List UInt8
  /-- The finished fields of the record, last field first. -/
  fields : List (List UInt8)
  start : Position
  here : Position
  /-- The finished records, last record first. -/
  rows : List Row
  deriving DecidableEq, Repr

namespace State

def begin (here : Position) : State :=
  ⟨.recordStart, [], [], .origin, here, []⟩

def push (s : State) (mode : Mode) (b : UInt8) : State :=
  { s with mode := mode, field := b :: s.field }

def endField (s : State) : State :=
  { s with mode := .fieldStart, field := [], fields := s.field.reverse :: s.fields }

def endRecord (s : State) : State :=
  let here := { s.here with records := s.here.records + 1 }
  { mode := .recordStart
    field := []
    fields := []
    start := here
    here := here
    rows := ⟨s.start, (s.field.reverse :: s.fields).reverse⟩ :: s.rows }

def plainByte (s : State) (b : UInt8) : State :=
  if b == comma then s.endField
  else if isLineEnd b then s.endRecord
  else s.push .bare b

def openingByte (s : State) (b : UInt8) : State :=
  if b == quote then { s with mode := .quoted } else s.plainByte b

/-- What a byte means in the mode in which it is met. -/
def meet (s : State) (b : UInt8) : State :=
  match s.mode with
  | .recordStart => if isLineEnd b then s else s.openingByte b
  | .fieldStart => s.openingByte b
  | .bare => s.plainByte b
  | .quoted => if b == quote then { s with mode := .quoteSeen } else s.push .quoted b
  | .quoteSeen => if b == quote then s.push .quoted b else s.plainByte b

def step (s : State) (b : UInt8) : State :=
  meet
    { s with here :=
      { s.here with
        feeds := s.here.feeds + (if b == lineFeed then 1 else 0)
        bytes := s.here.bytes + 1 } }
    b

def run (s : State) (bs : List UInt8) : State := bs.foldl step s

/-- The records after the last byte. A record that has begun ends there. -/
def finish (s : State) : List Row :=
  match s.mode with
  | .recordStart => s.rows.reverse
  | _ => s.endRecord.rows.reverse

end State

/-- The mark that may stand in front of a UTF-8 text. -/
def byteOrderMark : List UInt8 := [0xEF, 0xBB, 0xBF]

def rows (bs : List UInt8) : List Row :=
  if byteOrderMark.isPrefixOf bs then
    ((State.begin ⟨0, 0, byteOrderMark.length⟩).run (bs.drop byteOrderMark.length)).finish
  else ((State.begin .origin).run bs).finish

def needsQuotes (c : Char) : Bool :=
  c == ',' || c == '"' || c == '\r' || c == '\n'

/-- A quote inside quotes is written twice. -/
def doubled : List Char → List Char
  | [] => []
  | c :: cs => if c = '"' then '"' :: '"' :: doubled cs else c :: doubled cs

def writeField (s : List Char) : List Char :=
  if s.any needsQuotes then '"' :: doubled s ++ ['"'] else s

/-- A record of one empty field is quoted, since an empty line is no record. -/
def writeRecord : List (List Char) → List Char
  | [[]] => ['"', '"', '\n']
  | fields => [','].intercalate (fields.map writeField) ++ ['\n']

def writeRecords (records : List (List (List Char))) : List Char :=
  records.flatMap writeRecord

end Csv
end CreditRating

import CreditRating.Terminal.Style
import CreditRating.Text

/-!
Diagnostic events, their lines, and the filter that decides which of them are
written. A filter is a list of directives; of the directives that speak about an
event the most specific one decides, of two such the later.
-/

namespace CreditRating
namespace Log

inductive Level where
  | error
  | warn
  | info
  | debug
  | trace
  deriving DecidableEq, Repr

def Level.rank (l : Level) : Nat := l.ctorIdx

def Level.label : Level → String
  | error => "ERROR"
  | warn => "WARN"
  | info => "INFO"
  | debug => "DEBUG"
  | trace => "TRACE"

def Level.style : Level → Terminal.Style
  | error => ⟨31, 0⟩
  | warn => ⟨33, 0⟩
  | info => ⟨32, 0⟩
  | debug => ⟨34, 0⟩
  | trace => ⟨35, 0⟩

/-- The part of the program that an event comes from. -/
inductive Origin where
  | run
  | screening
  | batch
  | report
  deriving DecidableEq, Repr

def Origin.target : Origin → String
  | run => "credit_rater"
  | screening => "credit_rater::scoring::validation"
  | batch => "credit_rater::pipeline"
  | report => "credit_rater::report::writer"

structure Event where
  origin : Origin
  level : Level
  message : String
  fields : List (String × String)
  deriving DecidableEq, Repr

def Event.hasField (e : Event) (name : String) : Bool :=
  name == "message" || e.fields.any (·.1 == name)

/-- The line of an event that happened at the given time, without a line end. -/
def Event.line (colors : Terminal.Colors) (time : String) (e : Event) : String :=
  colors.paint Terminal.dimmed time ++ " " ++
    colors.paint e.level.style (Text.alignRight 5 e.level.label) ++ " " ++ e.message ++
    String.join (e.fields.map fun f =>
      " " ++ colors.paint Terminal.italic f.1 ++ colors.paint Terminal.dimmed "=" ++ f.2)

abbrev Threshold := Option Level

/-- A threshold for the events whose target begins with the given text. -/
structure Directive where
  target : String
  /-- Whether only what happens in a span is meant. No event of the program does. -/
  inSpan : Bool
  /-- A field that the event has to have. -/
  field : Option String
  threshold : Threshold
  deriving DecidableEq, Repr

abbrev Filter := List Directive

def threshold? (s : String) : Option Threshold :=
  match String.ofList (s.toList.map Char.toLower) with
  | "off" | "0" => some none
  | "error" | "1" => some (some .error)
  | "warn" | "2" => some (some .warn)
  | "info" | "3" => some (some .info)
  | "debug" | "4" => some (some .debug)
  | "trace" | "5" => some (some .trace)
  | _ => none

def isTargetChar (c : Char) : Bool :=
  c.isAlphanum || c == '_' || c == ':' || c == '-'

def isFieldChar (c : Char) : Bool :=
  c.isAlphanum || c == '_' || c == '.'

/-- The field between braces, and whether it has a value. A value is compared in spans only. -/
def field? (s : List Char) : Option (Bool × String) :=
  let name := s.takeWhile isFieldChar
  if name = [] then none
  else match s.dropWhile isFieldChar with
    | [] => some (false, String.ofList name)
    | '=' :: _ :: _ => some (true, String.ofList name)
    | _ => none

/-- What stands between brackets: the name of a span, and a field in braces. Both may be missing. -/
def scope? (s : List Char) : Option (Bool × Option String) :=
  let name := s.takeWhile (· != '\x7b')
  match s.dropWhile (· != '\x7b') with
  | [] => some (name ≠ [], none)
  | _ :: braced =>
      if braced.getLast? = some '\x7d' then
        (field? braced.dropLast).map fun f => (name ≠ [] || f.1, some f.2)
      else none

/-- The threshold at the end of a directive. Without one, everything is let through. -/
def ending? : List Char → Option Threshold
  | [] | ['='] => some (some .trace)
  | '=' :: level => threshold? (String.ofList level)
  | _ => none

/-- A threshold for everything, or a target, a scope in brackets or both, with a threshold. -/
def directive? (s : String) : Option Directive :=
  match threshold? s with
  | some t => some ⟨"", false, none, t⟩
  | none =>
      let target := s.toList.takeWhile isTargetChar
      match s.toList.dropWhile isTargetChar with
      | '[' :: rest =>
          match scope? (rest.takeWhile (· != ']')), rest.dropWhile (· != ']') with
          | some (inSpan, field), _ :: rest =>
              (ending? rest).map (⟨String.ofList target, inSpan, field, ·⟩)
          | _, _ => none
      | rest =>
          if target = [] then none
          else (ending? rest).map (⟨String.ofList target, false, none, ·⟩)

/-- A filter without directives lets errors through and nothing else. -/
def Filter.parse? (s : String) : Option Filter :=
  match (Text.pieces ',' s.toList).filter (· ≠ []) with
  | [] => some [⟨"", false, none, some .error⟩]
  | ps => ps.mapM fun p => directive? (String.ofList p)

def Directive.appliesTo (d : Directive) (e : Event) : Bool :=
  !d.inSpan && d.target.toList.isPrefixOf e.origin.target.toList && d.field.all e.hasField

/-- Whether the second directive is as specific as the first: the length of the target counts, and
then the field. -/
def Directive.yieldsTo (d e : Directive) : Bool :=
  d.target.length < e.target.length ||
    d.target.length == e.target.length && d.field.getD "" ≤ e.field.getD ""

def Directive.decisive (d e : Directive) : Directive :=
  if d.yieldsTo e then e else d

def Filter.threshold (f : Filter) (e : Event) : Threshold :=
  match f.filter (·.appliesTo e) with
  | [] => none
  | d :: ds => (ds.foldl Directive.decisive d).threshold

def Filter.allows (f : Filter) (e : Event) : Bool :=
  match f.threshold e with
  | none => false
  | some t => e.level.rank ≤ t.rank

def standardFilter (verbose : Bool) : String :=
  Origin.run.target ++ "=" ++ if verbose then "debug" else "warn"

def Filter.choose (given : Option String) (verbose : Bool) : Filter :=
  ((given.bind Filter.parse?).orElse fun _ => Filter.parse? (standardFilter verbose)).getD []

end Log
end CreditRating

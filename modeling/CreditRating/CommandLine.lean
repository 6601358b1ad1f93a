/-!
The command line: a client file, and options before or after it. Each option may
be given once. Arguments are read from left to right, and the first that is wrong
or asks for help or the version decides.
-/

namespace CreditRating

inductive OutputFormat where
  | table
  | json
  deriving DecidableEq, Repr

def OutputFormat.label : OutputFormat → String
  | table => "table"
  | json => "json"

def OutputFormat.ofLabel? (s : String) : Option OutputFormat :=
  [table, json].find? fun f => f.label = s

structure Request where
  input : String
  config : Option String
  outputDir : Option String
  explain : Bool
  format : OutputFormat
  verbose : Bool
  deriving DecidableEq, Repr

inductive UsageError where
  | unknownOption (name : String)
  | repeatedOption (name : String)
  | missingValue (name : String)
  | unexpectedValue (name : String)
  | badValue (name value : String)
  | unexpectedArgument (value : String)
  | missingInput
  deriving DecidableEq, Repr

def UsageError.message : UsageError → String
  | unknownOption name => "unexpected argument '" ++ name ++ "' found"
  | repeatedOption name => "the argument '" ++ name ++ "' cannot be used multiple times"
  | missingValue name => "a value is required for '" ++ name ++ "' but none was supplied"
  | unexpectedValue name => "no value is allowed for '" ++ name ++ "'"
  | badValue name value => "invalid value '" ++ value ++ "' for '" ++ name ++ "'"
  | unexpectedArgument value => "unexpected argument '" ++ value ++ "' found"
  | missingInput => "the required argument '<INPUT>' was not provided"

inductive Command where
  | score (request : Request)
  | help
  | version
  | misuse (error : UsageError)
  deriving DecidableEq, Repr

namespace CommandLine

def versionText : String := "credit-rater 0.1.0"

def usageText : String := "Usage: credit-rater [OPTIONS] <INPUT>"

def helpText : String :=
  "Score client credit risk and assign rating bands\n\n" ++ usageText ++ "\n\n" ++
  "Arguments:\n" ++
  "  <INPUT>  Client CSV: id,name,country,clientType,age,income,employment,industry,debt\n\n" ++
  "Options:\n" ++
  "  -c, --config <CONFIG>          Path to config file\n" ++
  "  -o, --output-dir <OUTPUT_DIR>  Directory for the ratings report\n" ++
  "      --explain                  Print how each factor moved every client's score\n" ++
  "      --format <FORMAT>          Terminal output format: table or json\n" ++
  "  -v, --verbose                  Enable verbose logging\n" ++
  "  -h, --help                     Print help\n" ++
  "  -V, --version                  Print version\n"

inductive Switch where
  | explain
  | verbose
  | help
  | version
  deriving DecidableEq, Repr

inductive ValueOption where
  | config
  | outputDir
  | format
  deriving DecidableEq, Repr

def ValueOption.label : ValueOption → String
  | config => "--config <CONFIG>"
  | outputDir => "--output-dir <OUTPUT_DIR>"
  | format => "--format <FORMAT>"

/-- Either kind of option. -/
inductive Flag where
  | switch (s : Switch)
  | valued (o : ValueOption)
  deriving DecidableEq, Repr

def longFlag? (name : String) : Option Flag :=
  [("config", Flag.valued .config), ("output-dir", .valued .outputDir),
    ("format", .valued .format), ("explain", .switch .explain), ("verbose", .switch .verbose),
    ("help", .switch .help), ("version", .switch .version)].lookup name

def shortFlag? (c : Char) : Option Flag :=
  [('c', Flag.valued .config), ('o', .valued .outputDir), ('v', .switch .verbose),
    ('h', .switch .help), ('V', .switch .version)].lookup c

/-- What has been read of a command line. -/
structure Progress where
  input : Option String
  config : Option String
  outputDir : Option String
  format : Option OutputFormat
  explain : Bool
  verbose : Bool
  /-- The option whose value comes next. -/
  awaited : Option ValueOption
  /-- Whether "--" has ended the options. -/
  ended : Bool
  deriving DecidableEq, Repr

namespace Progress

def start : Progress := ⟨none, none, none, none, false, false, none, false⟩

/-- What has been read after one more step, unless the command is settled. -/
abbrev Step := Except Command Progress

def stop (e : UsageError) : Step := .error (.misuse e)

/-- Sets a text once. It may not be empty. -/
def setText (name value : String) (before : Option String) (set : String → Progress) : Step :=
  if value = "" then stop (.badValue name value)
  else if before.isSome then stop (.repeatedOption name)
  else .ok (set value)

def setOption (p : Progress) (o : ValueOption) (value : String) : Step :=
  match o with
  | .config => setText o.label value p.config fun v => { p with config := some v }
  | .outputDir => setText o.label value p.outputDir fun v => { p with outputDir := some v }
  | .format =>
      match OutputFormat.ofLabel? value with
      | none => stop (.badValue o.label value)
      | some f =>
          if p.format.isSome then stop (.repeatedOption o.label)
          else .ok { p with format := some f }

def setInput (p : Progress) (value : String) : Step :=
  if p.input.isSome then stop (.unexpectedArgument value)
  else setText "<INPUT>" value none fun v => { p with input := some v }

def turnOn (p : Progress) : Switch → Step
  | .explain =>
      if p.explain then stop (.repeatedOption "--explain") else .ok { p with explain := true }
  | .verbose =>
      if p.verbose then stop (.repeatedOption "--verbose") else .ok { p with verbose := true }
  | .help => .error .help
  | .version => .error .version

/-- An argument that begins with "--", without it. -/
def long (p : Progress) (s : List Char) : Step :=
  let name := String.ofList (s.takeWhile (· != '='))
  match longFlag? name, s.dropWhile (· != '=') with
  | none, _ => stop (.unknownOption ("--" ++ name))
  | some (.switch s), [] => p.turnOn s
  | some (.switch _), _ => stop (.unexpectedValue ("--" ++ name))
  | some (.valued o), [] => .ok { p with awaited := some o }
  | some (.valued o), _ :: value => p.setOption o (String.ofList value)

/-- An argument that begins with "-", without it: switches, and at the end perhaps
an option with its value. -/
def short (p : Progress) : List Char → Step
  | [] => .ok p
  | c :: s =>
      match shortFlag? c with
      | none => stop (.unknownOption (String.ofList ['-', c]))
      | some (.switch f) => do (← p.turnOn f).short s
      | some (.valued o) =>
          match s with
          | [] => .ok { p with awaited := some o }
          | '=' :: value | value => p.setOption o (String.ofList value)

def add (p : Progress) (argument : String) : Step :=
  match p.ended, argument.toList with
  | false, '-' :: c :: s =>
      match p.awaited with
      | some o => stop (.missingValue o.label)
      | none =>
          if c != '-' then p.short (c :: s)
          else if s.isEmpty then .ok { p with ended := true }
          else p.long s
  | _, _ =>
      match p.awaited with
      | some o => { p with awaited := none }.setOption o argument
      | none => p.setInput argument

/-- What all arguments together ask for. -/
def finish (p : Progress) : Command :=
  match p.awaited, p.input with
  | some o, _ => .misuse (.missingValue o.label)
  | none, none => .misuse .missingInput
  | none, some input => .score {
      input := input
      config := p.config
      outputDir := p.outputDir
      explain := p.explain
      format := p.format.getD .table
      verbose := p.verbose }

end Progress

def parse (arguments : List String) : Command :=
  match arguments.foldlM Progress.add .start with
  | .ok p => p.finish
  | .error command => command

end CommandLine
end CreditRating

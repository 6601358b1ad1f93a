import CreditRating.Run
import Std.Time.Zoned

/-!
The program on the files and the clock of the machine.
-/

namespace CreditRating
namespace Machine

def faultOfCode (code : UInt32) (text : String) : FileFault :=
  match code.toNat with
  | 2 => .notFound
  | 17 => .alreadyExists
  | 20 => .notADirectory
  | 21 => .isADirectory
  | 22 => .invalidArgument
  | 36 => .nameTooLong
  | n => .other (text ++ " (os error " ++ toString n ++ ")")

def faultOf : IO.Error → FileFault
  | .noFileOrDirectory _ code text | .interrupted _ code text => faultOfCode code text
  | .alreadyExists _ code text | .invalidArgument _ code text | .permissionDenied _ code text
  | .resourceExhausted _ code text | .inappropriateType _ code text
  | .noSuchThing _ code text => faultOfCode code text
  | .otherError code text | .resourceBusy code text | .resourceVanished code text
  | .unsupportedOperation code text | .hardwareFault code text
  | .unsatisfiedConstraints code text | .illegalOperation code text | .protocolError code text
  | .timeExpired code text => faultOfCode code text
  | .unexpectedEof => .other "unexpected end of file"
  | .userError text => .other text

/-- The answer of an operation, of which a failure is classified. -/
def attempt {α ε : Type} (kind : FileFault → ε) (action : IO α) : IO (Except ε α) := do
  match ← action.toBaseIO with
  | .ok x => return .ok x
  | .error e => return .error (kind (faultOf e))

def readFile (p : Path) : IO (Except AccessFault (List UInt8)) := do
  if p.holdsNul then return .error (.opening .nulInPath)
  match ← attempt .opening (IO.FS.Handle.mk p.toText .read) with
  | .error fault => return .error fault
  | .ok handle =>
      return (← attempt .after handle.readBinToEnd).map fun bytes => bytes.data.toList

/-- Writes beside the file, and puts the whole in its place at the end. -/
def writeFile (p : Path) (content : List UInt8) : IO (Except AccessFault Unit) := do
  if p.holdsNul then return .error (.opening .invalidArgument)
  match p.split? with
  | none => return .error (.opening .isADirectory)
  | some (directory, name) =>
      let file (name : String) : String :=
        { directory with names := directory.names ++ [name] : Path }.toText
      let draft := file (Path.draftName name (Text.zeroPadded 6 (← IO.rand 0 999999)))
      match ← attempt .opening (IO.FS.Handle.mk draft .writeNew) with
      | .error fault => return .error fault
      | .ok handle =>
          let saved ← attempt .after do
            handle.write ⟨content.toArray⟩
            handle.flush
            IO.FS.rename draft (file name)
          if saved.toOption.isNone then
            let _ ← attempt id (IO.FS.removeFile draft)
          return saved

instance : FileStore IO where
  pathExists p := do
    if p.holdsNul then return false
    return (← attempt id (IO.FS.realPath p.toText)).toOption.isSome
  isDirectory p := do
    if p.holdsNul then return false
    match ← attempt id (IO.FS.realPath p.toText) with
    | .ok path => path.isDir
    | .error _ => return false
  read := readFile
  makeDirectory p := do
    if p.holdsNul then return .error .nulInPath
    attempt id (IO.FS.createDir p.toText)
  write := writeFile

def timeText (t : Std.Time.PlainDateTime) : String :=
  let m := Report.momentOf t
  let two := Text.zeroPadded 2
  Report.yearText m.year ++ "-" ++ two m.month ++ "-" ++ two m.day ++ "T" ++ two m.hour ++ ":" ++
    two m.minute ++ ":" ++ two m.second ++ "." ++
    Text.zeroPadded 6 (t.time.nanosecond.val.toNat / 1000) ++ "Z"

def universalTime : IO Std.Time.PlainDateTime := do
  return .ofWallTime (.ofTimestamp (← Std.Time.Timestamp.now) .zero)

def elapsedText (nanoseconds : Nat) : String :=
  toString (nanoseconds / 1000000) ++ "." ++ Text.zeroPadded 6 (nanoseconds % 1000000) ++ "ms"

def start (arguments : List String) : IO UInt32 := do
  let started ← IO.monoNanosNow
  let out ← IO.getStdout
  let err ← IO.getStderr
  let now ← Std.Time.PlainDateTime.now
  let environment : Environment := {
    home := ← IO.getEnv "HOME"
    logFilter := ← IO.getEnv "RUST_LOG"
    colors := if ← out.isTty then .on else .off
    logColors := if ((← IO.getEnv "NO_COLOR").getD "").isEmpty then .on else .off
    reportName := Report.fileName (Report.momentOf now) (← IO.rand 0 999999) }
  let transcript ← run environment arguments
  let time := timeText (← universalTime)
  let elapsed := elapsedText ((← IO.monoNanosNow) - started)
  out.putStr transcript.out
  err.putStr (transcript.errorText time elapsed)
  return transcript.code.toUInt32

end Machine
end CreditRating

def main (arguments : List String) : IO UInt32 :=
  CreditRating.Machine.start arguments

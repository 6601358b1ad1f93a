import CreditRating.Files.Path

/-!
The file operations that the program needs, what is built from them, and how they fail.
-/

namespace CreditRating

inductive FileFault where
  | notFound
  | alreadyExists
  | notADirectory
  | isADirectory
  | invalidArgument
  | nameTooLong
  /-- A path holds the character NUL. -/
  | nulInPath
  | notText
  /-- A failure that the operating system names. -/
  | other (text : String)
  deriving DecidableEq, Repr

def FileFault.message : FileFault → String
  | notFound => "No such file or directory (os error 2)"
  | alreadyExists => "File exists (os error 17)"
  | notADirectory => "Not a directory (os error 20)"
  | isADirectory => "Is a directory (os error 21)"
  | invalidArgument => "Invalid argument (os error 22)"
  | nameTooLong => "File name too long (os error 36)"
  | nulInPath => "file name contained an unexpected NUL byte"
  | notText => "stream did not contain valid UTF-8"
  | other text => text

/-- A failure to open a file, or one that comes later. -/
inductive AccessFault where
  | opening (fault : FileFault)
  | after (fault : FileFault)
  deriving DecidableEq, Repr

/-- A place with files. Writing a file replaces its whole content or changes
nothing. -/
class FileStore (m : Type → Type) where
  /-- Whether something exists. -/
  pathExists : Path → m Bool
  isDirectory : Path → m Bool
  read : Path → m (Except AccessFault (List UInt8))
  /-- Makes one directory in a directory. -/
  makeDirectory : Path → m (Except FileFault Unit)
  write : Path → List UInt8 → m (Except AccessFault Unit)

namespace FileStore

variable {m : Type → Type} [Monad m] [FileStore m]

def ensureDirectory (p : Path) : m (Except FileFault Unit) := do
  match ← makeDirectory p with
  | .ok () => return .ok ()
  | .error fault => return if ← isDirectory p then .ok () else .error fault

/-- Makes the directory with the given names, innermost first, and those above
it that are missing. -/
def makeDirectoriesOf (absolute : Bool) (ending : PathEnding) :
    List String → m (Except FileFault Unit)
  | [] => return .ok ()
  | name :: names => do
      let p : Path := ⟨absolute, (name :: names).reverse, ending⟩
      match ← ensureDirectory p with
      | .error .notFound =>
          match ← makeDirectoriesOf absolute .name names with
          | .ok () => ensureDirectory p
          | .error fault => return .error fault
      | answer => return answer

def makeDirectories (p : Path) : m (Except FileFault Unit) :=
  makeDirectoriesOf p.absolute p.ending p.names.reverse

end FileStore
end CreditRating

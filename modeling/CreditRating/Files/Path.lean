import CreditRating.Text

/-!
Paths: names that lead from the root or from the working directory. The names
"" and "." lead nowhere and are dropped; ".." leads to the directory above.
-/

namespace CreditRating

/-- How the text of a path ends: with a name, or so that a directory is meant. -/
inductive PathEnding where
  | name
  | slash
  /-- The name "." stands after the last name. -/
  | dot
  deriving DecidableEq, Repr

structure Path where
  absolute : Bool
  names : List String
  ending : PathEnding
  deriving DecidableEq, Repr

namespace Path

def above : String := ".."

/-- Whether a piece of a path leads nowhere. -/
def isIdle (piece : String) : Bool := piece = "" || piece = "."

def endingOf (pieces : List String) : PathEnding :=
  let last := pieces.reverse.takeWhile isIdle
  if last.contains "." then .dot else if last.isEmpty then .name else .slash

def ofString (s : String) : Path :=
  let pieces := (Text.pieces '/' s.toList).map String.ofList
  { absolute := s.toList.head? = some '/'
    names := pieces.filter fun p => !isIdle p
    ending := endingOf pieces }

def toText (p : Path) : String :=
  if p.names.isEmpty then if p.absolute then "/" else "."
  else (if p.absolute then "/" else "") ++ "/".intercalate p.names ++
    match p.ending with
    | .name => ""
    | .slash => "/"
    | .dot => "/."

def longest : Nat := 4095

def longestName : Nat := 255

def isTooLong (p : Path) : Bool := longest < p.toText.utf8ByteSize

def holdsNul (p : Path) : Bool := p.names.any fun name => name.toList.contains '\x00'

/-- The name of the file beside the named one that holds what is written until all
of it is. The mark of six characters tells such files apart. -/
def draftName (name mark : String) : String := "." ++ name ++ "." ++ mark

/-- Whether a file with the name can be written, for which its draft needs a name. -/
def isWritable (name : String) : Bool := (draftName name "000000").utf8ByteSize ≤ longestName

/-- The directory that holds what the path names, and its name in there; none if
the path ends without a name. -/
def split? (p : Path) : Option (Path × String) :=
  match p.names.reverse with
  | [] => none
  | name :: names =>
      if name = above then none
      else some ({ p with names := names.reverse, ending := .name }, name)

/-- The text of the path to a file in a directory. An absolute path needs no
directory. -/
def join (directory file : String) : String :=
  if file.toList.head? = some '/' || directory = "" then file
  else if directory.toList.getLast? = some '/' then directory ++ file
  else directory ++ "/" ++ file

end Path
end CreditRating

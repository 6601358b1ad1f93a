import CreditRating.Files.Store

/-!
A file tree as a value. Operations on it follow a path name by name; every name
but the last has to lead to a directory.
-/

namespace CreditRating

inductive FileEntry where
  | directory
  | file (content : List UInt8)
  deriving DecidableEq, Repr

/-- The names on the way to a place from the root, innermost first. -/
abbrev Location := List String

structure FileTree where
  /-- What exists besides the root. -/
  entries : List (Location × FileEntry)
  workingDirectory : Location
  deriving Repr

namespace FileTree

/-- What exists at a location. The root always does. -/
def get? (t : FileTree) (l : Location) : Option FileEntry :=
  if l = [] then some .directory else t.entries.lookup l

def setEntries (l : Location) (e : FileEntry) :
    List (Location × FileEntry) → List (Location × FileEntry)
  | [] => [(l, e)]
  | (k, d) :: r => if k = l then (l, e) :: r else (k, d) :: setEntries l e r

/-- The tree in which the entry exists at the location. -/
def set (t : FileTree) (l : Location) (e : FileEntry) : FileTree :=
  { t with entries := setEntries l e t.entries }

theorem lookup_setEntries (l k : Location) (e : FileEntry) (es : List (Location × FileEntry)) :
    (setEntries l e es).lookup k = if k = l then some e else es.lookup k := by
  induction es with
  | nil =>
      by_cases h : k = l
      · simp [setEntries, h]
      · simp [setEntries, List.lookup_cons, h, beq_eq_false_iff_ne.2 h]
  | cons d es ih =>
      obtain ⟨j, d⟩ := d
      by_cases hj : j = l
      · subst hj
        by_cases hk : k = j
        · simp [setEntries, hk]
        · simp [setEntries, List.lookup_cons, hk, beq_eq_false_iff_ne.2 hk]
      · by_cases hk : k = j
        · subst hk
          simp [setEntries, hj]
        · simp [setEntries, List.lookup_cons, hj, beq_eq_false_iff_ne.2 hk, ih]

/-- Setting an entry changes what exists there and nowhere else. -/
theorem get?_set (t : FileTree) {l : Location} (e : FileEntry) (hl : l ≠ []) (k : Location) :
    (t.set l e).get? k = if k = l then some e else t.get? k := by
  by_cases hk : k = []
  · subst hk
    simp [get?, hl.symm]
  · simp [get?, set, hk, lookup_setEntries]

def step (t : FileTree) (l : Location) (name : String) : Except FileFault Location :=
  match t.get? l with
  | none => .error .notFound
  | some (.file _) => .error .notADirectory
  | some .directory =>
      if Path.longestName < name.utf8ByteSize then .error .nameTooLong
      else .ok (if name = Path.above then l.tail else name :: l)

/-- Where a path leads. Whether something exists there is left open. -/
def locate (t : FileTree) (p : Path) : Except FileFault Location :=
  if p.holdsNul then .error .nulInPath
  else if p.isTooLong then .error .nameTooLong
  else p.names.foldlM t.step (if p.absolute then [] else t.workingDirectory)

/-- What exists at a path. -/
def find (t : FileTree) (p : Path) : Except FileFault FileEntry := do
  match t.get? (← t.locate p) with
  | none => .error .notFound
  | some .directory => .ok .directory
  | some (.file content) =>
      if p.ending = .name then .ok (.file content) else .error .notADirectory

def pathExists (t : FileTree) (p : Path) : Bool := (t.find p).toOption.isSome

def isDirectory (t : FileTree) (p : Path) : Bool := (t.find p).toOption = some .directory

def read (t : FileTree) (p : Path) : Except AccessFault (List UInt8) :=
  match t.find p with
  | .ok (.file content) => .ok content
  | .ok .directory => .error (.after .isADirectory)
  | .error fault => .error (.opening fault)

def makeDirectory (t : FileTree) (p : Path) : Except FileFault FileTree := do
  let l ← t.locate p
  match t.get? l with
  | some .directory => .error .alreadyExists
  | some (.file _) => .error (if p.ending = .dot then .notADirectory else .alreadyExists)
  | none => if p.ending = .dot then .error .notFound else .ok (t.set l .directory)

def locateDirectory (t : FileTree) (p : Path) : Except FileFault Location := do
  if p.holdsNul then .error .invalidArgument
  match ← t.find p with
  | .directory => t.locate p
  | .file _ => .error .notADirectory

/-- The tree with the content as that of the file. The file's directory exists. -/
def write (t : FileTree) (p : Path) (content : List UInt8) : Except AccessFault FileTree := do
  match p.split? with
  | none => .error (.opening .isADirectory)
  | some (directory, name) =>
      let l ← (t.locateDirectory directory).mapError .opening
      if p.holdsNul then .error (.opening .invalidArgument)
      if !Path.isWritable name then .error (.opening .nameTooLong)
      if t.get? (name :: l) = some .directory then .error (.after .isADirectory)
      else .ok (t.set (name :: l) (.file content))

def update {ε : Type} (change : FileTree → Except ε FileTree) : StateM FileTree (Except ε Unit) :=
  fun t =>
    match change t with
    | .ok t => (.ok (), t)
    | .error e => (.error e, t)

instance : FileStore (StateM FileTree) where
  pathExists p := fun t => (t.pathExists p, t)
  isDirectory p := fun t => (t.isDirectory p, t)
  read p := fun t => (t.read p, t)
  makeDirectory p := update fun t => t.makeDirectory p
  write p content := update fun t => t.write p content

end FileTree
end CreditRating

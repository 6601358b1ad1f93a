import CreditRating.Proofs.Files.Saving

/-!
Saving under a name that is new to the files. Whether the report can be saved does not depend
on the name, for the directories that are made on the way have other names.
-/

namespace CreditRating

namespace FileTree

variable {t t' : FileTree} {p : Path} {l k : Location} {name : String}

/-- No entry has the name, nor has any directory above the working directory. -/
structure Lacks (t : FileTree) (name : String) : Prop where
  absent : ∀ l, t.get? (name :: l) = none
  notMem : name ∉ t.workingDirectory

theorem notMem_of_step {first : String} (h : t.step l first = .ok k) (start : name ∉ l)
    (other : name ≠ first) : name ∉ k := by
  rw [step, get?_eq_of_step h] at h
  dsimp only at h
  split at h
  · cases h
  · cases h
    split
    · exact fun mem => start (List.mem_of_mem_tail mem)
    · simp [other, start]

theorem notMem_of_foldlM_step {names : List String} (h : names.foldlM t.step l = .ok k)
    (start : name ∉ l) (other : name ∉ names) : name ∉ k := by
  induction names generalizing l with
  | nil =>
      cases h
      exact start
  | cons first names ih =>
      rw [List.foldlM_cons] at h
      obtain ⟨j, step, rest⟩ := exists_of_bind h
      rw [List.mem_cons, not_or] at other
      exact ih rest (notMem_of_step step start other.1) other.2

theorem notMem_of_locate (h : t.locate p = .ok l) (start : name ∉ t.workingDirectory)
    (other : name ∉ p.names) : name ∉ l := by
  rw [locate] at h
  split at h
  · cases h
  · split at h
    · cases h
    · refine notMem_of_foldlM_step h ?_ other
      split
      · simp
      · exact start

namespace Lacks

variable (h : t.Lacks name)
include h

theorem makeDirectory (other : name ∉ p.names) (made : t.makeDirectory p = .ok t') :
    t'.Lacks name := by
  obtain ⟨l, located, none, rfl⟩ := makeDirectory_ok made
  have away : name ∉ l := notMem_of_locate located h.notMem other
  refine ⟨?_, h.notMem⟩
  intro k
  rw [get?_set t .directory (ne_nil_of_get?_ne (t := t) (by simp [none])), if_neg]
  · exact h.absent k
  · rintro rfl
    simp at away

theorem ensureDirectory (other : name ∉ p.names) :
    ((FileStore.ensureDirectory p : StateM FileTree (Except FileFault Unit)).run t).2.Lacks
      name := by
  rw [run_ensureDirectory]
  cases made : t.makeDirectory p with
  | ok t' => exact h.makeDirectory other made
  | error fault => exact h

omit h in
theorem makeDirectoriesOf (absolute : Bool) (ending : PathEnding) (names : List String)
    (other : name ∉ names) (h : t.Lacks name) :
    ((FileStore.makeDirectoriesOf absolute ending names :
      StateM FileTree (Except FileFault Unit)).run t).2.Lacks name := by
  induction names generalizing ending t with
  | nil => exact h
  | cons first names ih =>
      have away : name ∉ (first :: names).reverse := mt List.mem_reverse.1 other
      rw [List.mem_cons, not_or] at other
      rw [run_makeDirectoriesOf_cons]
      have kept := h.ensureDirectory (p := ⟨absolute, (first :: names).reverse, ending⟩) away
      split
      · next t' missing =>
          rw [missing] at kept
          have above := ih .name other.2 kept
          split
          · next t'' made =>
              rw [made] at above
              exact above.ensureDirectory away
          · next t'' failed =>
              rw [failed] at above
              exact above
      · exact kept

/-- Making directories makes nothing with a name that the path lacks. -/
theorem makeDirectories (other : name ∉ p.names) :
    ((FileStore.makeDirectories p : StateM FileTree (Except FileFault Unit)).run t).2.Lacks
      name :=
  makeDirectoriesOf p.absolute p.ending p.names.reverse (by simpa using other) h

end Lacks

/-- However long the whole path is: it is the directory that is looked up. -/
theorem write_of_lacks {dir : String} (plain : Path.PlainName name) (nul : '\x00' ∉ name.toList)
    (writable : Path.isWritable name) (absent : ∀ l, t.get? (name :: l) = none)
    (content : List UInt8) :
    t.write (.ofString (Path.join dir name)) content =
      ((t.locateDirectory { Path.ofString dir with ending := .name }).mapError .opening).map
        fun l => t.set (name :: l) (.file content) := by
  rw [write, Path.split?_join plain dir]
  dsimp only
  cases located : t.locateDirectory { Path.ofString dir with ending := .name } with
  | error fault => rfl
  | ok l =>
      have free : (Path.ofString (Path.join dir name)).holdsNul = false := by
        rw [locateDirectory] at located
        split at located
        · cases located
        · next free =>
            rw [Bool.not_eq_true] at free
            simpa [Path.holdsNul, Path.names_join plain dir, nul] using free
      simp [Except.mapError, Except.map, free, writable, absent, bind, Except.bind]

/-- A report can have the name, and nothing there or on the way to the directory has it. -/
structure IsNew (t : FileTree) (directory name : String) : Prop where
  stamped : ∃ m number, name = Report.fileName m number
  writable : Path.isWritable name
  lacks : t.Lacks name
  notMem : name ∉ (Path.ofString directory).names

theorem IsNew.plain {directory : String} (h : t.IsNew directory name) : Path.PlainName name := by
  obtain ⟨m, number, rfl⟩ := h.stamped
  exact Report.plainName_fileName m number

theorem IsNew.nul_notMem {directory : String} (h : t.IsNew directory name) :
    '\x00' ∉ name.toList := by
  obtain ⟨m, number, rfl⟩ := h.stamped
  exact Report.notMem_fileName (by decide) (by decide) m number

/-- The directory can be made if it is missing, and be entered. -/
def Opens (t : FileTree) (directory : String) : Prop :=
  ∃ u l, (FileStore.makeDirectories (.ofString directory) :
      StateM FileTree (Except FileFault Unit)).run t = (.ok (), u) ∧
    u.locateDirectory { Path.ofString directory with ending := .name } = .ok l

end FileTree

open FileTree

/-- One name does as well as another. -/
theorem ReportFile.saves_iff_opens {directory name : String} {results : List Scored} {t : FileTree}
    (new : t.IsNew directory name) (some : results.isEmpty = false) :
    (∃ path u, (save directory name results :
        StateM FileTree (Except ReportError String)).run t = (.ok path, u)) ↔
      t.Opens directory := by
  have kept := new.lacks.makeDirectories new.notMem
  rw [run_save, some, if_neg Bool.false_ne_true, Opens]
  cases made : (FileStore.makeDirectories (.ofString directory) :
      StateM FileTree (Except FileFault Unit)).run t with
  | mk answer u =>
      rw [made] at kept
      cases answer with
      | error fault =>
          constructor
          · rintro ⟨_, _, h⟩
            cases h
          · rintro ⟨_, _, h, -⟩
            cases h
      | ok _ =>
          dsimp only
          rw [write_of_lacks new.plain new.nul_notMem new.writable kept.absent]
          cases located : u.locateDirectory { Path.ofString directory with ending := .name } with
          | ok l => exact ⟨fun _ => ⟨u, l, rfl, located⟩, fun _ => ⟨_, _, rfl⟩⟩
          | error fault =>
              constructor
              · rintro ⟨_, _, h⟩
                cases h
              · rintro ⟨_, _, h, located'⟩
                cases h
                cases located.symm.trans located'

end CreditRating

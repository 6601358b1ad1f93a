import CreditRating.Proofs.Files.Joined
import CreditRating.Proofs.Files.Tree
import CreditRating.ReportFile

/-!
Saving in a file tree. Either one file has been added to the directory that was
asked for, or all files are as before; directories may have been made in both cases.
-/

namespace CreditRating

namespace FileTree

variable {t t' t'' : FileTree} {p : Path} {l : Location}

/-- The answer to a request for a directory, and the tree afterwards. -/
structure Makes (t : FileTree) (p : Path) (r : Except FileFault Unit × FileTree) : Prop where
  grown : Grown t r.2
  made : r.1 = .ok () → ∃ l, r.2.locate p = .ok l

theorem Makes.of_grown (h : Grown t t') {r : Except FileFault Unit × FileTree}
    (h' : Makes t' p r) : Makes t p r :=
  ⟨h.trans h'.grown, h'.made⟩

theorem run_update {ε : Type} (change : FileTree → Except ε FileTree) (t : FileTree) :
    (update change).run t =
      match change t with
      | .ok t' => (.ok (), t')
      | .error e => (.error e, t) := by
  cases h : change t <;> simp [update, StateT.run, h]

theorem run_ensureDirectory (p : Path) (t : FileTree) :
    (FileStore.ensureDirectory p : StateM FileTree (Except FileFault Unit)).run t =
      match t.makeDirectory p with
      | .ok t' => (.ok (), t')
      | .error fault => (if t.isDirectory p then .ok () else .error fault, t) := by
  have operation : (FileStore.makeDirectory p : StateM FileTree (Except FileFault Unit)) =
      update fun t => t.makeDirectory p := rfl
  rw [FileStore.ensureDirectory, StateT.run_bind, operation, run_update]
  cases t.makeDirectory p <;> rfl

theorem makes_ensureDirectory (p : Path) (t : FileTree) :
    Makes t p ((FileStore.ensureDirectory p : StateM FileTree (Except FileFault Unit)).run t) := by
  rw [run_ensureDirectory]
  cases made : t.makeDirectory p with
  | ok t' =>
      obtain ⟨l, located, none, rfl⟩ := makeDirectory_ok made
      have grown := grown_set none
      exact ⟨grown, fun _ => ⟨l, grown.locate located⟩⟩
  | error fault =>
      refine ⟨Grown.refl t, ?_⟩
      by_cases there : t.isDirectory p
      · obtain ⟨l, located, -⟩ := isDirectory_iff.1 there
        exact fun _ => ⟨l, located⟩
      · simp [there]

theorem run_makeDirectoriesOf_cons (absolute : Bool) (ending : PathEnding) (name : String)
    (names : List String) (t : FileTree) :
    (FileStore.makeDirectoriesOf absolute ending (name :: names) :
        StateM FileTree (Except FileFault Unit)).run t =
      match (FileStore.ensureDirectory ⟨absolute, (name :: names).reverse, ending⟩ :
          StateM FileTree (Except FileFault Unit)).run t with
      | (.error .notFound, t') =>
          match (FileStore.makeDirectoriesOf absolute .name names :
              StateM FileTree (Except FileFault Unit)).run t' with
          | (.ok (), t'') =>
              (FileStore.ensureDirectory ⟨absolute, (name :: names).reverse, ending⟩ :
                StateM FileTree (Except FileFault Unit)).run t''
          | (.error fault, t'') => (.error fault, t'')
      | r => r := by
  rw [FileStore.makeDirectoriesOf, StateT.run_bind]
  obtain ⟨answer, t'⟩ := (FileStore.ensureDirectory ⟨absolute, (name :: names).reverse, ending⟩ :
    StateM FileTree (Except FileFault Unit)).run t
  cases answer with
  | ok u => rfl
  | error fault =>
      cases fault with
      | notFound =>
          change (FileStore.makeDirectoriesOf absolute .name names >>= _ :
            StateM FileTree (Except FileFault Unit)).run t' = _
          rw [StateT.run_bind]
          dsimp only
          obtain ⟨answer, t''⟩ := (FileStore.makeDirectoriesOf absolute .name names :
            StateM FileTree (Except FileFault Unit)).run t'
          cases answer <;> rfl
      | _ => rfl

theorem locate_nil (absolute : Bool) (ending : PathEnding) (t : FileTree) :
    t.locate ⟨absolute, [], ending⟩ = .ok (if absolute then [] else t.workingDirectory) := by
  have short : Path.isTooLong ⟨absolute, [], ending⟩ = false := by
    cases absolute <;> cases ending <;> decide
  rw [locate, short]
  rfl

theorem makes_makeDirectoriesOf (absolute : Bool) (ending : PathEnding) (names : List String)
    (t : FileTree) :
    Makes t ⟨absolute, names.reverse, ending⟩
      ((FileStore.makeDirectoriesOf absolute ending names :
        StateM FileTree (Except FileFault Unit)).run t) := by
  induction names generalizing ending t with
  | nil => exact ⟨Grown.refl t, fun _ => ⟨_, locate_nil absolute ending t⟩⟩
  | cons name names ih =>
      rw [run_makeDirectoriesOf_cons]
      have first := makes_ensureDirectory ⟨absolute, (name :: names).reverse, ending⟩ t
      split
      · next t' missing =>
          rw [missing] at first
          have above := ih .name t'
          split
          · next t'' made =>
              rw [made] at above
              exact (makes_ensureDirectory _ t'').of_grown (first.grown.trans above.grown)
          · next t'' failed =>
              rw [failed] at above
              exact ⟨first.grown.trans above.grown, nofun⟩
      · exact first

/-- A request for a directory with those above it makes nothing but directories. -/
theorem makes_makeDirectories (p : Path) (t : FileTree) :
    Makes t p ((FileStore.makeDirectories p : StateM FileTree (Except FileFault Unit)).run t) := by
  have made := makes_makeDirectoriesOf p.absolute p.ending p.names.reverse t
  rw [List.reverse_reverse] at made
  exact made

/-- A file with the content has been added to the directory, and no other file has changed. -/
def AddsFile (t t' : FileTree) (directory : Path) (name : String) (content : List UInt8) : Prop :=
  ∃ l, t'.locate directory = .ok l ∧ t'.get? l = some .directory ∧
    t.get? (name :: l) = none ∧ t'.get? (name :: l) = some (.file content) ∧
    ∀ k, k ≠ name :: l → ∀ c, t'.get? k = some (.file c) ↔ t.get? k = some (.file c)

/-- Paths to one place that end differently lead to one location. -/
theorem locate_ending {e : PathEnding} {k : Location} (h : t.locate p = .ok l)
    (h' : t.locate { p with ending := e } = .ok k) : k = l := by
  rw [locate] at h h'
  split at h
  · cases h
  · split at h
    · cases h
    · split at h'
      · cases h'
      · split at h'
        · cases h'
        · exact Except.ok.inj (h'.symm.trans h)

theorem adds_write {dir name : String} {content : List UInt8} (plain : Path.PlainName name)
    (fresh : ∀ l, t.get? (name :: l) = none) (grown : Grown t t')
    (located : t'.locate (.ofString dir) = .ok l)
    (h : t'.write (.ofString (Path.join dir name)) content = .ok t'') :
    AddsFile t t'' (.ofString dir) name content := by
  obtain ⟨directory, name', k, split, there, isDirectory, -, free, rfl⟩ := write_ok h
  rw [Path.split?_join plain dir] at split
  cases split
  cases locate_ending located there
  have get (k : Location) := get?_set t' (.file content) (List.cons_ne_nil name l) k
  have kept (k : Location) (h : t'.get? k = some .directory) :
      (t'.set (name :: l) (.file content)).get? k = some .directory := by
    rw [get, if_neg]
    · exact h
    · rintro rfl
      exact free h
  refine ⟨l, locate_kept (t := t') rfl kept located, kept l isDirectory, fresh l, ?_, ?_⟩
  · rw [get, if_pos rfl]
  · intro k other c
    rw [get, if_neg other]
    exact grown.sameFiles k c

end FileTree

namespace ReportFile

open FileTree

variable {directory name : String} {results : List Scored} {t : FileTree}

theorem run_save (directory name : String) (results : List Scored) (t : FileTree) :
    (save directory name results : StateM FileTree (Except ReportError String)).run t =
      if results.isEmpty then (.error .noResults, t)
      else
        match (FileStore.makeDirectories (.ofString directory) :
            StateM FileTree (Except FileFault Unit)).run t with
        | (.error fault, t') => (.error (.noDirectory directory fault), t')
        | (.ok (), t') =>
            match t'.write (.ofString (Path.join directory name))
                (Utf8.encode (Report.render results).toList) with
            | .error (.opening fault) => (.error (.unopened (Path.join directory name) fault), t')
            | .error (.after fault) => (.error (.unsaved (Path.join directory name) fault), t')
            | .ok t'' => (.ok (Path.join directory name), t'') := by
  rw [save]
  split
  · rfl
  · rw [StateT.run_bind]
    obtain ⟨answer, t'⟩ := (FileStore.makeDirectories (.ofString directory) :
      StateM FileTree (Except FileFault Unit)).run t
    cases answer with
    | error fault => rfl
    | ok u =>
        have operation : (FileStore.write (.ofString (Path.join directory name))
            (Utf8.encode (Report.render results).toList) :
              StateM FileTree (Except AccessFault Unit)) =
            update fun t => t.write (.ofString (Path.join directory name))
              (Utf8.encode (Report.render results).toList) := rfl
        change (FileStore.write _ _ >>= _ : StateM FileTree (Except ReportError String)).run t' = _
        rw [StateT.run_bind, operation, run_update]
        dsimp only
        cases t'.write (.ofString (Path.join directory name))
            (Utf8.encode (Report.render results).toList) with
        | ok t'' => rfl
        | error fault => cases fault <;> rfl

/-- A report that could not be saved has left no trace among the files. -/
theorem sameFiles_of_save_error {e : ReportError} {t' : FileTree}
    (h : (save directory name results : StateM FileTree (Except ReportError String)).run t =
      (.error e, t')) : SameFiles t t' := by
  rw [run_save] at h
  have made := makes_makeDirectories (.ofString directory) t
  split at h
  · cases h
    exact (Grown.refl t).sameFiles
  · split at h
    · next answered =>
        rw [answered] at made
        cases h
        exact made.grown.sameFiles
    · next answered =>
        rw [answered] at made
        split at h <;> cases h <;> exact made.grown.sameFiles

/-- A saved report is a new file in the directory, where no entry had its name. -/
theorem adds_of_save_ok {path : String} {t' : FileTree} (plain : Path.PlainName name)
    (fresh : ∀ l, t.get? (name :: l) = none)
    (h : (save directory name results : StateM FileTree (Except ReportError String)).run t =
      (.ok path, t')) :
    path = Path.join directory name ∧
      AddsFile t t' (.ofString directory) name
        (Utf8.encode (Report.render results).toList) := by
  rw [run_save] at h
  have made := makes_makeDirectories (.ofString directory) t
  split at h
  · cases h
  · split at h
    · cases h
    · next t₁ answered =>
        rw [answered] at made
        obtain ⟨l, located⟩ := made.made rfl
        split at h
        · cases h
        · cases h
        · next written =>
            cases h
            exact ⟨rfl, adds_write plain fresh made.grown located written⟩

end ReportFile
end CreditRating

import CreditRating.Proofs.Files.Saving

/-!
Saving in place of an older report. A save that succeeds replaces the content of
one file, the one that its path leads to, and one that fails changes no file.
-/

namespace CreditRating

theorem Path.split?_eq_some {p directory : Path} {name : String}
    (h : p.split? = some (directory, name)) :
    p.names = directory.names ++ [name] ∧ directory.absolute = p.absolute ∧ name ≠ above := by
  rw [split?] at h
  split at h
  · cases h
  · next last names reversed =>
      split at h
      · cases h
      · next other =>
          cases h
          exact ⟨by simpa using congrArg List.reverse reversed, rfl, other⟩

theorem Path.utf8ByteSize_le_of_isWritable {name : String} (h : isWritable name) :
    name.utf8ByteSize ≤ longestName := by
  simp only [isWritable, draftName, decide_eq_true_eq, String.utf8ByteSize_append] at h
  omega

namespace FileTree

variable {t t' : FileTree} {p : Path} {l : Location} {content : List UInt8}

/-- The names of the path lead to the location, one after the other. How long the path is
as a whole does not matter. -/
def LeadsTo (t : FileTree) (p : Path) (l : Location) : Prop :=
  p.names.foldlM t.step (if p.absolute then [] else t.workingDirectory) = .ok l

/-- The file at the location has the content, and every other file is as it was. -/
def ReplacesFile (t t' : FileTree) (l : Location) (content : List UInt8) : Prop :=
  t'.get? l = some (.file content) ∧
    ∀ k, k ≠ l → ∀ c, t'.get? k = some (.file c) ↔ t.get? k = some (.file c)

theorem leadsTo_of_locate (h : t.locate p = .ok l) : t.LeadsTo p l := by
  rw [locate] at h
  split at h
  · cases h
  · split at h
    · cases h
    · exact h

theorem LeadsTo.kept (same : t'.workingDirectory = t.workingDirectory)
    (kept : ∀ k, t.get? k = some .directory → t'.get? k = some .directory)
    (h : t.LeadsTo p l) : t'.LeadsTo p l := by
  rw [LeadsTo, same]
  exact foldlM_step_kept kept h

/-- A path leads from its directory to the name in there. -/
theorem LeadsTo.split {directory : Path} {name : String} (h : t.LeadsTo directory l)
    (there : t.get? l = some .directory) (split : p.split? = some (directory, name))
    (short : name.utf8ByteSize ≤ Path.longestName) : t.LeadsTo p (name :: l) := by
  obtain ⟨names, absolute, other⟩ := Path.split?_eq_some split
  have last : t.step l name = .ok (name :: l) := by
    rw [step, there]
    dsimp only
    rw [if_neg (Nat.not_lt.2 short), if_neg other]
  rw [LeadsTo, absolute] at h
  rw [LeadsTo, names, List.foldlM_append, h]
  change [name].foldlM t.step l = _
  rw [List.foldlM_cons, last]
  rfl

theorem replaces_of_write_ok (h : t.write p content = .ok t') :
    ∃ l, t'.LeadsTo p l ∧ ReplacesFile t t' l content := by
  obtain ⟨directory, name, l, split, located, there, writable, free, rfl⟩ := write_ok h
  have get (k : Location) := get?_set t (.file content) (List.cons_ne_nil name l) k
  have kept (k : Location) (h : t.get? k = some .directory) :
      (t.set (name :: l) (.file content)).get? k = some .directory := by
    rw [get, if_neg]
    · exact h
    · rintro rfl
      exact free h
  have leads : (t.set (name :: l) (.file content)).LeadsTo directory l :=
    LeadsTo.kept (t := t) rfl kept (leadsTo_of_locate located)
  refine ⟨name :: l, ?_, ?_, ?_⟩
  · exact leads.split (kept l there) split (Path.utf8ByteSize_le_of_isWritable writable)
  · rw [get, if_pos rfl]
  · intro k other c
    rw [get, if_neg other]

theorem SameFiles.replaces {t'' : FileTree} (same : SameFiles t t')
    (h : ReplacesFile t' t'' l content) : ReplacesFile t t'' l content :=
  ⟨h.1, fun k other c => (h.2 k other c).trans (same k c)⟩

end FileTree

namespace ReportFile

open FileTree

variable {directory name path : String} {results : List Scored} {t t' : FileTree}

/-- A saved report replaces one file at most, that of its own path. -/
theorem replaces_of_save_ok
    (h : (save directory name results : StateM FileTree (Except ReportError String)).run t =
      (.ok path, t')) :
    path = Path.join directory name ∧
      ∃ l, t'.LeadsTo (.ofString path) l ∧
        ReplacesFile t t' l (Utf8.encode (Report.render results).toList) := by
  rw [run_save] at h
  have made := makes_makeDirectories (.ofString directory) t
  split at h
  · cases h
  · split at h
    · cases h
    · next t₁ answered =>
        rw [answered] at made
        split at h
        · cases h
        · cases h
        · next written =>
            cases h
            obtain ⟨l, leads, replaces⟩ := replaces_of_write_ok written
            exact ⟨rfl, l, leads, made.grown.sameFiles.replaces replaces⟩

/-- A report without results changes nothing, a report that is written changes one file,
and a report that cannot be written changes none. -/
theorem save_changes_one_file (directory name : String) (results : List Scored) (t : FileTree) :
    (save directory name [] : StateM FileTree (Except ReportError String)).run t =
        (.error .noResults, t) ∧
      (∀ path t', (save directory name results :
            StateM FileTree (Except ReportError String)).run t = (.ok path, t') →
          path = Path.join directory name ∧
            ∃ l, t'.LeadsTo (.ofString path) l ∧
              ReplacesFile t t' l (Utf8.encode (Report.render results).toList)) ∧
      (∀ e t', (save directory name results :
            StateM FileTree (Except ReportError String)).run t = (.error e, t') →
          SameFiles t t') :=
  ⟨rfl, fun _ _ => replaces_of_save_ok, fun _ _ => sameFiles_of_save_error⟩

def olderReport : FileTree where
  entries := [(["out"], .directory),
    (["r.csv", "out"],
      .file (Utf8.encode "ClientID,Score,Rating\nC1,1.00,AAA\nC2,1.00,AAA\n".toList)),
    (["c.csv"], .file [])]
  workingDirectory := []

def newResults : List Scored :=
  [⟨⟨"C1", "", "AT", "", 30, 0.0, "x", "y", 0.0, 0.25⟩, .d⟩]

/-- The older report is replaced on a way around, and none is written on a way that is not
there. -/
theorem save_changes_one_file_olderReport :
    (∃ t' l, (save "out" "../out/r.csv" newResults :
          StateM FileTree (Except ReportError String)).run olderReport =
            (.ok "out/../out/r.csv", t') ∧
        t'.LeadsTo (.ofString "out/../out/r.csv") l ∧
        ReplacesFile olderReport t' l (Utf8.encode (Report.render newResults).toList)) ∧
      ∃ t', (save "out" "missing/r.csv" newResults :
          StateM FileTree (Except ReportError String)).run olderReport =
            (.error (.unopened "out/missing/r.csv" .notFound), t') ∧
        SameFiles olderReport t' := by
  have saved : ((save "out" "../out/r.csv" newResults :
      StateM FileTree (Except ReportError String)).run olderReport).1 =
        .ok "out/../out/r.csv" := by decide +kernel
  have refused : ((save "out" "missing/r.csv" newResults :
      StateM FileTree (Except ReportError String)).run olderReport).1 =
        .error (.unopened "out/missing/r.csv" .notFound) := by decide +kernel
  have saved := Prod.ext saved rfl
  have refused := Prod.ext refused rfl
  obtain ⟨-, written, -⟩ := save_changes_one_file "out" "../out/r.csv" newResults olderReport
  obtain ⟨-, -, failed⟩ := save_changes_one_file "out" "missing/r.csv" newResults olderReport
  obtain ⟨-, l, leads, replaces⟩ := written _ _ saved
  exact ⟨⟨_, l, saved, leads, replaces⟩, _, refused, failed _ _ refused⟩

end ReportFile
end CreditRating

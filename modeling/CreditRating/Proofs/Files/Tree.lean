import CreditRating.Files.Tree
import CreditRating.Proofs.Answers

/-!
What the file operations leave as it was. A directory is made where nothing is,
so the files stay, and a path that leads somewhere leads there afterwards.
-/

namespace CreditRating
namespace FileTree

variable {t t' t'' : FileTree} {p : Path} {l : Location}

/-- The two trees have the same files with the same contents. -/
def SameFiles (t t' : FileTree) : Prop :=
  ∀ l content, t'.get? l = some (.file content) ↔ t.get? l = some (.file content)

/-- Some directories have been made, and nothing else has changed. -/
structure Grown (t t' : FileTree) : Prop where
  workingDirectory_eq : t'.workingDirectory = t.workingDirectory
  get?_eq : ∀ l, t'.get? l = t.get? l ∨ t.get? l = none ∧ t'.get? l = some .directory

namespace Grown

theorem refl (t : FileTree) : Grown t t :=
  ⟨rfl, fun _ => .inl rfl⟩

theorem trans (h : Grown t t') (h' : Grown t' t'') : Grown t t'' := by
  refine ⟨h'.workingDirectory_eq.trans h.workingDirectory_eq, ?_⟩
  intro l
  obtain same' | ⟨none', directory'⟩ := h'.get?_eq l
  · rw [same']
    exact h.get?_eq l
  · obtain same | ⟨none, directory⟩ := h.get?_eq l
    · exact .inr ⟨same.symm.trans none', directory'⟩
    · rw [directory] at none'
      cases none'

theorem sameFiles (h : Grown t t') : SameFiles t t' := by
  intro l content
  obtain same | ⟨none, directory⟩ := h.get?_eq l
  · rw [same]
  · simp [none, directory]

theorem directory (h : Grown t t') (there : t.get? l = some .directory) :
    t'.get? l = some .directory := by
  obtain same | ⟨none, -⟩ := h.get?_eq l
  · exact same.trans there
  · rw [none] at there
    cases there

end Grown

theorem get?_eq_of_step {name : String} {k : Location} (h : t.step l name = .ok k) :
    t.get? l = some .directory := by
  rw [step] at h
  split at h
  · cases h
  · cases h
  · assumption

theorem step_kept (kept : ∀ l, t.get? l = some .directory → t'.get? l = some .directory)
    {name : String} {k : Location} (h : t.step l name = .ok k) : t'.step l name = .ok k := by
  have there := get?_eq_of_step h
  rw [step, there] at h
  rw [step, kept l there]
  exact h

theorem foldlM_step_kept (kept : ∀ l, t.get? l = some .directory → t'.get? l = some .directory)
    {names : List String} {k : Location} (h : names.foldlM t.step l = .ok k) :
    names.foldlM t'.step l = .ok k := by
  induction names generalizing l with
  | nil => exact h
  | cons name names ih =>
      rw [List.foldlM_cons] at h ⊢
      obtain ⟨j, first, rest⟩ := exists_of_bind h
      rw [step_kept kept first]
      exact ih rest

/-- Paths lead to the same places as long as directories stay. -/
theorem locate_kept (same : t'.workingDirectory = t.workingDirectory)
    (kept : ∀ l, t.get? l = some .directory → t'.get? l = some .directory)
    (h : t.locate p = .ok l) : t'.locate p = .ok l := by
  rw [locate] at h ⊢
  split at h
  · cases h
  · split at h
    · cases h
    · next nul long =>
        rw [if_neg nul, if_neg long, same]
        exact foldlM_step_kept kept h

theorem Grown.locate (h : Grown t t') (there : t.locate p = .ok l) : t'.locate p = .ok l :=
  locate_kept h.workingDirectory_eq (fun _ => h.directory) there

theorem find_eq_directory_iff :
    t.find p = .ok .directory ↔ ∃ l, t.locate p = .ok l ∧ t.get? l = some .directory := by
  constructor
  · intro h
    obtain ⟨l, located, h⟩ := exists_of_bind h
    refine ⟨l, located, ?_⟩
    split at h
    · cases h
    · assumption
    · split at h <;> cases h
  · rintro ⟨l, located, there⟩
    simp [find, located, there, bind, Except.bind]

theorem isDirectory_iff :
    t.isDirectory p ↔ ∃ l, t.locate p = .ok l ∧ t.get? l = some .directory := by
  rw [← find_eq_directory_iff, isDirectory]
  cases t.find p <;> simp [Except.toOption]

theorem makeDirectory_ok (h : t.makeDirectory p = .ok t') :
    ∃ l, t.locate p = .ok l ∧ t.get? l = none ∧ t' = t.set l .directory := by
  obtain ⟨l, located, h⟩ := exists_of_bind h
  split at h
  · cases h
  · cases h
  · split at h
    · cases h
    · cases h
      exact ⟨l, located, by assumption, rfl⟩

theorem ne_nil_of_get?_ne (h : t.get? l ≠ some .directory) : l ≠ [] := by
  rintro rfl
  exact h rfl

theorem grown_set (none : t.get? l = none) : Grown t (t.set l .directory) := by
  refine ⟨rfl, ?_⟩
  intro k
  have ne : l ≠ [] := ne_nil_of_get?_ne (t := t) (by simp [none])
  rw [get?_set t .directory ne]
  split
  · next same =>
      subst same
      exact .inr ⟨none, rfl⟩
  · exact .inl rfl

theorem locateDirectory_ok (h : t.locateDirectory p = .ok l) :
    t.locate p = .ok l ∧ t.get? l = some .directory := by
  rw [locateDirectory] at h
  split at h
  · cases h
  · obtain ⟨entry, found, h⟩ := exists_of_bind h
    cases entry with
    | file content => cases h
    | directory =>
        obtain ⟨k, located, there⟩ := find_eq_directory_iff.1 found
        have located' : t.locate p = .ok l := h
        rw [located] at located'
        cases located'
        exact ⟨located, there⟩

theorem write_ok {content : List UInt8} (h : t.write p content = .ok t') :
    ∃ directory name l, p.split? = some (directory, name) ∧ t.locate directory = .ok l ∧
      t.get? l = some .directory ∧ Path.isWritable name ∧
      t.get? (name :: l) ≠ some .directory ∧ t' = t.set (name :: l) (.file content) := by
  rw [write] at h
  split at h
  · cases h
  · next directory name split =>
      obtain ⟨l, located, h⟩ := exists_of_bind h
      have located : t.locateDirectory directory = .ok l := by
        cases found : t.locateDirectory directory with
        | error fault =>
            rw [found] at located
            cases located
        | ok k =>
            rw [found] at located
            cases located
            rfl
      obtain ⟨located, there⟩ := locateDirectory_ok located
      by_cases nul : p.holdsNul
      · simp [nul, bind, Except.bind] at h
      · by_cases writable : Path.isWritable name
        · by_cases taken : t.get? (name :: l) = some .directory
          · simp [nul, writable, taken] at h
          · simp [nul, writable, taken] at h
            exact ⟨directory, name, l, split, located, there, writable, taken, h.symm⟩
        · simp [nul, writable, bind, Except.bind] at h

end FileTree
end CreditRating

import CreditRating.Proofs.Text.FixedWidth
import CreditRating.Proofs.Text.Pieces
import CreditRating.Report
import CreditRating.Files.Path

/-!
The path of a file in a directory. However the text of the directory ends, the
path leads to the directory first and then to the name.
-/

namespace CreditRating

namespace Path

/-- A text that names an entry of a directory. -/
structure PlainName (name : String) : Prop where
  slash_notMem : '/' ∉ name.toList
  isIdle_eq : isIdle name = false
  ne_above : name ≠ above

def namesOf (s : List Char) : List String :=
  ((Text.pieces '/' s).map String.ofList).filter fun p => !isIdle p

theorem names_ofString (s : String) : (ofString s).names = namesOf s.toList := rfl

theorem namesOf_append (s t : List Char) : namesOf (s ++ '/' :: t) = namesOf s ++ namesOf t := by
  rw [namesOf, Text.pieces_append, List.map_append, List.filter_append]
  rfl

theorem namesOf_nil : namesOf [] = [] := rfl

theorem PlainName.namesOf_eq {name : String} (h : PlainName name) :
    namesOf name.toList = [name] := by
  rw [namesOf, Text.pieces_of_notMem h.slash_notMem]
  simp [h.isIdle_eq]

theorem PlainName.head?_ne {name : String} (h : PlainName name) :
    name.toList.head? ≠ some '/' :=
  fun first => h.slash_notMem (List.mem_of_head? first)

variable {name : String} (h : PlainName name) (dir : String)

include h

/-- A file in a directory is reached through the names of the directory. -/
theorem names_join :
    (ofString (join dir name)).names = (ofString dir).names ++ [name] := by
  rw [names_ofString, names_ofString, join]
  by_cases none : dir = ""
  · rw [if_pos (by simp [none]), none, h.namesOf_eq]
    rfl
  · rw [if_neg (by simp [none, h.head?_ne])]
    split
    · next slash =>
        obtain ⟨s, hs⟩ := List.getLast?_eq_some_iff.1 slash
        rw [String.toList_append, hs, List.append_assoc, List.singleton_append, namesOf_append,
          namesOf_append, namesOf_nil, List.append_nil, h.namesOf_eq]
    · have slash : "/".toList = ['/'] := rfl
      rw [String.toList_append, String.toList_append, slash, List.append_assoc,
        List.singleton_append, namesOf_append, h.namesOf_eq]

theorem absolute_join : (ofString (join dir name)).absolute = (ofString dir).absolute := by
  have head : (join dir name).toList.head? = some '/' ↔ dir.toList.head? = some '/' := by
    rw [join]
    by_cases none : dir = ""
    · rw [if_pos (by simp [none]), none]
      simp [h.head?_ne]
    · rw [if_neg (by simp [none, h.head?_ne])]
      have some : dir.toList ≠ [] := by simpa using none
      obtain ⟨c, s, first⟩ := List.exists_cons_of_ne_nil some
      split <;> simp [first]
  simp [ofString, head]

theorem split?_join :
    (ofString (join dir name)).split? =
      some ({ ofString dir with ending := .name }, name) := by
  rw [split?, names_join h dir, List.reverse_append]
  simp [h.ne_above, absolute_join h dir]

end Path

namespace Report

theorem notMem_fileName {c : Char} (other : ¬ c.isDigit)
    (h : c ∉ "credit_ratings_-+.csv".toList) (m : Moment) (number : ℕ) :
    c ∉ (fileName m number).toList := by
  have padded (width n : ℕ) : c ∉ (Text.zeroPadded width n).toList :=
    fun hc => other (Text.allDigits_zeroPadded width n c hc)
  have part {s : String} (sub : s.toList ⊆ "credit_ratings_-+.csv".toList) : c ∉ s.toList :=
    fun hc => h (sub hc)
  have lead : c ∉ "credit_ratings_".toList := part (by decide)
  have mark : c ∉ "_".toList := part (by decide)
  have ending : c ∉ ".csv".toList := part (by decide)
  have sign : c ∉ (if m.year < 0 then "-" else if 9999 < m.year then "+" else "").toList := by
    apply part
    split
    · decide
    · split <;> decide
  simp [fileName, nameOf, stamp, yearText, -String.reduceToList, padded, lead, mark, ending, sign]

/-- The name of a report is one name, and never one that leads to another directory. -/
theorem plainName_fileName (m : Moment) (number : ℕ) : Path.PlainName (fileName m number) := by
  have first : ∃ s, (fileName m number).toList = 'c' :: s := by
    have lead : "credit_ratings_".toList = 'c' :: "redit_ratings_".toList := by decide
    rw [fileName, nameOf, String.toList_append, String.toList_append, lead]
    exact ⟨_, rfl⟩
  obtain ⟨s, first⟩ := first
  refine ⟨?_, ?_, ?_⟩
  · exact notMem_fileName (by decide) (by decide) m number
  · simp [Path.isIdle, ← String.toList_inj, first]
  · simp [Path.above, ← String.toList_inj, first]

end Report
end CreditRating

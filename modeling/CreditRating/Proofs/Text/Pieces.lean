import CreditRating.Text

/-!
Texts taken apart. A separator divides the pieces in front of it from those behind it. The words are
the pieces between blanks that are not empty, however many blanks there are.
-/

namespace CreditRating
namespace Text

section

variable {sep : Char}

theorem pieces_ne_nil (s : List Char) : pieces sep s ≠ [] := by
  cases s with
  | nil => simp [pieces]
  | cons c s =>
      rw [pieces]
      split
      · simp
      · split <;> simp

theorem pieces_of_notMem {s : List Char} (h : sep ∉ s) : pieces sep s = [s] := by
  induction s with
  | nil => rfl
  | cons c s ih =>
      rw [List.mem_cons, not_or] at h
      rw [pieces, if_neg (Ne.symm h.1), ih h.2]

theorem pieces_append (s t : List Char) :
    pieces sep (s ++ sep :: t) = pieces sep s ++ pieces sep t := by
  induction s with
  | nil => simp [pieces]
  | cons c s ih =>
      rw [List.cons_append, pieces, pieces, ih]
      split
      · rfl
      · cases h : pieces sep s with
        | nil => exact absurd h (pieces_ne_nil s)
        | cons p ps => rfl

end

/-- What stands between blanks. -/
def wordsOf (s : List Char) : List (List Char) := (pieces ' ' s).filter (· ≠ [])

def words (s : String) : List String := (wordsOf s.toList).map String.ofList

theorem wordsOf_append (s t : List Char) : wordsOf (s ++ ' ' :: t) = wordsOf s ++ wordsOf t := by
  rw [wordsOf, pieces_append, List.filter_append]
  rfl

theorem wordsOf_blanks_append (n : Nat) (s : List Char) :
    wordsOf (List.replicate n ' ' ++ s) = wordsOf s := by
  induction n with
  | zero => rfl
  | succ n ih =>
      have front := wordsOf_append [] (List.replicate n ' ' ++ s)
      rwa [ih] at front

section

variable {s t : String}

/-- A blank separates words. -/
theorem words_append (s t : String) : words (s ++ " " ++ t) = words s ++ words t := by
  have blank : " ".toList = [' '] := rfl
  rw [words, String.toList_append, String.toList_append, blank, List.append_assoc,
    List.singleton_append, wordsOf_append, List.map_append]
  rfl

theorem words_gap (s t : String) : words (s ++ "  " ++ t) = words s ++ words t := by
  have gap : "  " = " " ++ "" ++ " " := rfl
  have none : words "" = [] := rfl
  rw [gap, ← String.append_assoc, ← String.append_assoc, words_append, words_append, none,
    List.append_nil]

theorem words_alignRight (width : Nat) (s : String) : words (alignRight width s) = words s := by
  rw [words, alignRight, String.toList_ofList, List.leftpad, wordsOf_blanks_append]
  rfl

theorem words_of_notMem (h : ' ' ∉ s.toList) (ne : s ≠ "") : words s = [s] := by
  have some : s.toList ≠ [] := by simpa using ne
  rw [words, wordsOf, pieces_of_notMem h, List.filter_cons_of_pos (by simpa using some)]
  simp

end

end Text
end CreditRating

import Mathlib.Algebra.BigOperators.Group.List.Basic
import Mathlib.Algebra.Order.Ring.Nat

/-!
The lines of a text. A line feed ends a line, and nothing behind the last one is no line. Texts
that do not end with a line feed keep their lines when they are put together with line feeds.
-/

namespace CreditRating
namespace Text

def lines : List Char → List (List Char)
  | [] => []
  | c :: s =>
      if c = '\n' then [] :: lines s
      else match lines s with
        | [] => [[c]]
        | l :: ls => (c :: l) :: ls

/-- The text breaks off in a line. -/
inductive Unended : List Char → Prop
  | last {c : Char} (h : c ≠ '\n') : Unended [c]
  | cons (c : Char) {s : List Char} (h : Unended s) : Unended (c :: s)

variable {s : List Char} {ls : List (List Char)}

theorem unended_concat (s : List Char) {c : Char} (h : c ≠ '\n') : Unended (s ++ [c]) := by
  induction s with
  | nil => exact .last h
  | cons d s ih => exact ih.cons d

theorem Unended.ne_nil (h : Unended s) : s ≠ [] := by
  cases h <;> exact List.cons_ne_nil _ _

theorem Unended.exists_lines (h : Unended s) : ∃ l ls, lines s = l :: ls := by
  cases h
  all_goals
    rw [lines]
    split
    · exact ⟨_, _, rfl⟩
    · split <;> exact ⟨_, _, rfl⟩

theorem lines_of_notMem (ne : s ≠ []) (h : '\n' ∉ s) : lines s = [s] := by
  induction s with
  | nil => exact absurd rfl ne
  | cons c s ih =>
      rw [List.mem_cons, not_or] at h
      rw [lines, if_neg (Ne.symm h.1)]
      cases s with
      | nil => rfl
      | cons d s => rw [ih (List.cons_ne_nil d s) h.2]

/-- A line feed behind an unfinished line ends it. -/
theorem lines_append (h : Unended s) (t : List Char) :
    lines (s ++ '\n' :: t) = lines s ++ lines t := by
  induction h with
  | last h => simp [lines, h]
  | cons c h ih =>
      obtain ⟨l, ls, e⟩ := h.exists_lines
      rw [List.cons_append, lines, ih, lines, e]
      split <;> rfl

theorem lines_append_feed (h : '\n' ∉ s) (t : List Char) :
    lines (s ++ '\n' :: t) = s :: lines t := by
  induction s with
  | nil => simp [lines]
  | cons c s ih =>
      rw [List.mem_cons, not_or] at h
      rw [List.cons_append, lines, if_neg (Ne.symm h.1), ih h.2]

/-- A text that breaks off in a line has one line more than line feeds. -/
theorem length_lines (h : Unended s) : (lines s).length = 1 + s.count '\n' := by
  induction h with
  | last h => simp [lines, h]
  | cons c h ih =>
      obtain ⟨l, ls, e⟩ := h.exists_lines
      rw [lines, List.count_cons, ← Nat.add_assoc, ← ih, e]
      split
      · next feed => rw [if_pos (beq_iff_eq.2 feed), List.length_cons]
      · next other => rw [if_neg (mt beq_iff_eq.1 other), Nat.add_zero, List.length_cons,
          List.length_cons]

theorem lines_intercalate (h : ∀ s ∈ ls, Unended s) :
    lines (['\n'].intercalate ls) = ls.flatMap lines := by
  induction ls with
  | nil => rfl
  | cons s ls ih =>
      rw [List.forall_mem_cons] at h
      cases ls with
      | nil => simp
      | cons t ls =>
          rw [List.intercalate_cons_cons, List.append_assoc, List.singleton_append,
            lines_append h.1, ih h.2]
          rfl

theorem length_lines_intercalate (h : ∀ s ∈ ls, Unended s) :
    (lines (['\n'].intercalate ls)).length = (ls.map fun s => 1 + s.count '\n').sum := by
  rw [lines_intercalate h, List.length_flatMap]
  exact congrArg List.sum (List.map_congr_left fun s hs => length_lines (h s hs))

/-- The texts that are put together are the lines of the whole just if none has a line feed. -/
theorem lines_intercalate_eq_iff (h : ∀ s ∈ ls, Unended s) :
    lines (['\n'].intercalate ls) = ls ↔ ∀ s ∈ ls, s.count '\n' = 0 := by
  constructor
  · intro same
    -- As many lines as texts leave no line feed to count.
    have counts := length_lines_intercalate h
    rw [same, List.sum_map_add, List.map_const', List.sum_replicate_nat, Nat.mul_one,
      Nat.left_eq_add, List.sum_eq_zero_iff_forall_eq_nat] at counts
    exact List.forall_mem_map.1 counts
  · intro plain
    have single : ∀ s ∈ ls, lines s = [s] :=
      fun s hs => lines_of_notMem (h s hs).ne_nil (List.count_eq_zero.1 (plain s hs))
    rw [lines_intercalate h, List.flatMap_congr single]
    exact List.flatMap_singleton' ls

end Text
end CreditRating

import CreditRating.Proofs.Report.ScoreCell
import CreditRating.Proofs.Terminal.Lines

/-!
The columns of the table. A cell that fills its column keeps the next one in place. The column of
ids is as wide as the longest id, and scores in [0, 1] and ratings fit theirs. The numbers of the
rows do so up to 999, and a longer one moves all columns behind it.
-/

namespace CreditRating
namespace Text

@[simp] theorem length_alignLeft (width : Nat) (s : String) :
    (alignLeft width s).length = max width s.length := by
  rw [alignLeft, String.length_ofList, List.length_rightpad, String.length_toList]

@[simp] theorem length_alignRight (width : Nat) (s : String) :
    (alignRight width s).length = max width s.length := by
  rw [alignRight, String.length_ofList, List.length_leftpad, String.length_toList]

end Text

namespace Terminal

open Text (alignLeft alignRight)

/-- The parts of a line, each with what stands between it and the next one. -/
structure Cells where
  number : String
  id : String
  score : String
  rating : String
  /-- The name, and the country behind it. -/
  name : String

def Cells.line (c : Cells) : String := c.number ++ c.id ++ c.score ++ c.rating ++ c.name

/-- The character offsets at which the id, the score, the rating and the name begin. -/
structure Columns where
  id : Nat
  score : Nat
  rating : Nat
  name : Nat
  deriving DecidableEq

def Cells.columns (c : Cells) : Columns where
  id := c.number.length
  score := (c.number ++ c.id).length
  rating := (c.number ++ c.id ++ c.score).length
  name := (c.number ++ c.id ++ c.score ++ c.rating).length

def rowCells (width number : Nat) (r : Scored) : Cells where
  number := alignRight 3 (toString number) ++ ". "
  id := alignLeft width r.client.id ++ "  "
  score := alignRight 5 (Decimal.fixed 2 r.client.score) ++ "  "
  rating := ratingCell .off r.rating ++ "  "
  name := shortName r.client.name ++ " (" ++ r.client.country ++ ")"

/-- The cells of a row put together are its line. -/
theorem line_rowCells (width number : Nat) (r : Scored) :
    (rowCells width number r).line = tableRow .off width number r := by
  have dot : ". " = "." ++ " " := rfl
  simp only [Cells.line, rowCells, tableRow, Colors.paint, dot, String.append_assoc]

/-- The columns of a line whose cells fill them, behind a number with so many characters. -/
def columnsBehind (digits width : Nat) : Columns where
  id := digits + 2
  score := digits + width + 4
  rating := digits + width + 11
  name := digits + width + 16

/-- Only the width of the number moves the columns. -/
theorem columnsBehind_inj {digits digits' width : Nat} :
    columnsBehind digits width = columnsBehind digits' width ↔ digits = digits' := by
  simp only [columnsBehind, Columns.mk.injEq]
  omega

theorem length_ratingCell (r : Rating) : (ratingCell .off r).length = ratingWidth := by
  cases r <;> rfl

theorem length_fixed_le {x : Float} (low : 0.0 ≤ x) (high : x ≤ 1.0) :
    (Decimal.fixed 2 x).length ≤ 5 := by
  obtain ⟨plain, signed⟩ := Report.fixed_of_mem_unit low high
  by_cases zero : Binary.IsNegativeZero x
  · rw [signed zero]
    decide
  · obtain h | ⟨a, b, -, -, h⟩ := plain zero
    · rw [h]
      decide
    · rw [h, String.length_ofList]
      exact Nat.le_succ 4

theorem le_idWidthFrom (w : Nat) (rs : List Scored) :
    w ≤ rs.foldl (fun w r => max w r.client.id.length) w ∧
      ∀ r ∈ rs, r.client.id.length ≤ rs.foldl (fun w r => max w r.client.id.length) w := by
  induction rs generalizing w with
  | nil => exact ⟨Nat.le_refl w, nofun⟩
  | cons r rs ih =>
      obtain ⟨start, rest⟩ := ih (max w r.client.id.length)
      rw [List.foldl_cons, List.forall_mem_cons]
      exact ⟨(Nat.le_max_left _ _).trans start, (Nat.le_max_right _ _).trans start, rest⟩

theorem length_id_le_idWidth {rs : List Scored} {r : Scored} (h : r ∈ rs) :
    r.client.id.length ≤ idWidth rs :=
  (le_idWidthFrom leastIdWidth rs).2 r h

/-- The columns of a row depend on nothing but its number and the width of the ids. -/
theorem columns_rowCells {width : Nat} {r : Scored} (fits : r.client.id.length ≤ width)
    (low : 0.0 ≤ r.client.score) (high : r.client.score ≤ 1.0) (number : Nat) :
    (rowCells width number r).columns =
      columnsBehind (max 3 (toString number).length) width := by
  have score := length_fixed_le low high
  have point : ". ".length = 2 := rfl
  have blanks : "  ".length = 2 := rfl
  simp only [Cells.columns, rowCells, columnsBehind, String.length_append, Text.length_alignLeft,
    Text.length_alignRight, length_ratingCell, ratingWidth, point, blanks, Columns.mk.injEq,
    Nat.max_eq_left fits, Nat.max_eq_left score, true_and]
  omega

/-- A number of a row has room for three digits. -/
theorem length_toString_le {n : Nat} (h : n < 1000) : max 3 (toString n).length = 3 :=
  Nat.max_eq_left (Nat.repr_length n 3 (by decide) h)

/-- The lines of the table are the rows, and the columns of a row begin behind its number, which is
at least three characters wide. So they begin at the same places in all rows just if there are
fewer than a thousand. -/
theorem columns_of_scoreTable {rs : List Scored} (ne : rs ≠ [])
    (oneLine : ∀ r ∈ rs, ∀ s ∈ [r.client.id, r.client.name, r.client.country], '\n' ∉ s.toList)
    (unit : ∀ r ∈ rs, 0.0 ≤ r.client.score ∧ r.client.score ≤ 1.0) :
    lines (scoreTable .off rs) =
        rs.mapIdx (fun k r => (rowCells (idWidth rs) (k + 1) r).line) ∧
    (∀ k r, rs[k]? = some r → (rowCells (idWidth rs) (k + 1) r).columns =
      columnsBehind (max 3 (toString (k + 1)).length) (idWidth rs)) ∧
    ((∃ c, ∀ k r, rs[k]? = some r → (rowCells (idWidth rs) (k + 1) r).columns = c) ↔
      rs.length < 1000) := by
  have columns (k : Nat) (r : Scored) (h : rs[k]? = some r) :
      (rowCells (idWidth rs) (k + 1) r).columns =
        columnsBehind (max 3 (toString (k + 1)).length) (idWidth rs) := by
    have mem := List.mem_of_getElem? h
    exact columns_rowCells (length_id_le_idWidth mem) (unit r mem).1 (unit r mem).2 (k + 1)
  refine ⟨?_, columns, ?_⟩
  · simp only [line_rowCells]
    refine (lines_scoreTable_eq_iff ne).2 fun r hr => ?_
    have texts := oneLine r hr
    simp only [List.forall_mem_cons, ← feeds_eq_zero_iff] at texts
    obtain ⟨id, name, country, -⟩ := texts
    have short := feeds_shortName name
    simp only [rowFeeds, id, short, country]
  · constructor
    · rintro ⟨c, same⟩
      by_contra many
      -- The first row and the thousandth, which has a digit more.
      have first := List.getElem?_eq_getElem (l := rs) (i := 0) (by omega)
      have last := List.getElem?_eq_getElem (l := rs) (i := 999) (by omega)
      have moved := (columns 0 _ first).symm.trans
        ((same 0 _ first).trans ((same 999 _ last).symm.trans (columns 999 _ last)))
      rw [columnsBehind_inj] at moved
      exact absurd moved (by decide)
    · intro few
      refine ⟨columnsBehind 3 (idWidth rs), fun k r h => ?_⟩
      obtain ⟨inside, -⟩ := List.getElem?_eq_some_iff.1 h
      rw [columns k r h, length_toString_le (by omega)]

/-- The thousandth row has a number of four digits, so it shows the id one place further right. -/
theorem columns_of_scoreTable_thousandRows :
    let r : Scored := ⟨oneLineClient, .d⟩
    let rs := List.replicate 1000 r
    (∀ s ∈ [r.client.id, r.client.name, r.client.country], '\n' ∉ s.toList) ∧
    0.0 ≤ r.client.score ∧ r.client.score ≤ 1.0 ∧
    (lines (scoreTable .off rs)).length = 1000 ∧
    (rowCells (idWidth rs) 1 r).columns.id = 5 ∧
    (rowCells (idWidth rs) 1000 r).columns.id = 6 ∧
    ¬ ∃ c, ∀ k s, rs[k]? = some s → (rowCells (idWidth rs) (k + 1) s).columns = c := by
  intro r rs
  have oneLine : ∀ s ∈ [r.client.id, r.client.name, r.client.country], '\n' ∉ s.toList := by
    decide
  have low : 0.0 ≤ r.client.score := by decide
  have high : r.client.score ≤ 1.0 := by decide
  have all {s : Scored} (h : s ∈ rs) : s = r := List.eq_of_mem_replicate h
  have rowAt (k : Nat) (h : k < 1000) : rs[k]? = some r := by
    rw [List.getElem?_replicate, if_pos h]
  have some : rs ≠ [] := List.cons_ne_nil _ _
  obtain ⟨rows, columns, aligned⟩ := columns_of_scoreTable some
    (fun s h => all h ▸ oneLine) (fun s h => all h ▸ ⟨low, high⟩)
  refine ⟨oneLine, low, high, ?_, ?_, ?_, ?_⟩
  · rw [rows, List.length_mapIdx, List.length_replicate]
  · rw [columns 0 r (rowAt 0 (by decide))]
    rfl
  · rw [columns 999 r (rowAt 999 (by decide))]
    rfl
  · rw [aligned, List.length_replicate]
    exact Nat.lt_irrefl 1000

end Terminal
end CreditRating

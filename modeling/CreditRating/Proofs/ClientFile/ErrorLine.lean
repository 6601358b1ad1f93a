import CreditRating.Proofs.ClientFile.Outcomes
import CreditRating.Proofs.Csv.Lines

/-!
The line that an error names, against the line on which its record begins. The
two agree where every line above ends with a line feed and none is empty.
-/

namespace CreditRating

namespace ClientFile

variable {e : LoadError}

/-- The first error comes from the record below the header and the clients before it. -/
theorem exists_row_of_outcomes {bs : List UInt8} {cs : List Client}
    {ys : List (Except LoadError Client)}
    (h : outcomes bs = cs.map .ok ++ .error e :: ys) :
    ∃ r, (Csv.rows bs)[cs.length + 1]? = some r ∧
      readRow (if cs = [] then .origin else r.start) r = .error e := by
  have there : (outcomes bs)[cs.length]? = some (.error e) := by
    rw [h, List.getElem?_append_right (by simp)]
    simp
  rw [outcomes, outcomesOf.eq_def] at there
  split at there
  · next head first rest rows =>
      rw [rows]
      cases cs with
      | nil => exact ⟨first, rfl, Option.some.inj there⟩
      | cons c cs =>
          rw [List.length_cons, List.getElem?_cons_succ, List.getElem?_map,
            Option.map_eq_some_iff] at there
          obtain ⟨r, there, outcome⟩ := there
          exact ⟨r, there, outcome⟩
  · cases there

/-- A named line misses the carriage returns without a line feed and the line feeds
between the record and the line end before it; and for the first record below the header,
if it is no text, all lines above. -/
theorem line_of_parse_eq_error {bs : List UInt8} {line : ℕ} (failed : parse bs = .error e)
    (named : e.line? = some line) :
    ∃ (cs : List Client) (ys : List (Except LoadError Client)) (above gap : List UInt8),
      outcomes bs = cs.map .ok ++ .error e :: ys ∧
      Csv.Begins bs (cs.length + 1) above gap ∧
      Csv.lineEnds (above ++ gap) + 1 =
        line + Csv.loneReturns (above ++ gap) + gap.count Csv.lineFeed +
          if cs = [] ∧ e.isUnreadable then above.count Csv.lineFeed else 0 := by
  have some : e ≠ .noClients := by
    rintro rfl
    cases named
  obtain ⟨cs, ys, first⟩ := (parse_eq_error_iff some).1 failed
  obtain ⟨r, row, outcome⟩ := exists_row_of_outcomes first
  obtain ⟨above, gap, begins, feeds⟩ := Csv.placed_of_getElem?_rows row
  refine ⟨cs, ys, above, gap, first, begins, ?_⟩
  have line_eq := Option.some.inj (named.symm.trans (readRow_error outcome))
  rw [Csv.lineEnds_eq, List.count_append, line_eq]
  by_cases none : cs = [] <;> cases e.isUnreadable <;>
    simp [none, Csv.Position.line, Csv.Position.origin, feeds] <;> omega

/-- The lines end with both characters. The error names line 1, the record is on line 2. -/
theorem line_of_parse_eq_error_twoCharacters :
    parse (Utf8.encode ['i', 'd', '\r', '\n', 'C', '\r', '\n']) = .error (.fieldCount 1 1) ∧
    Csv.lineEnds (Utf8.encode ['i', 'd', '\r', '\n']) + 1 = 2 ∧
    ∃ (cs : List Client) (ys : List (Except LoadError Client)) (above gap : List UInt8),
      outcomes (Utf8.encode ['i', 'd', '\r', '\n', 'C', '\r', '\n']) =
        cs.map .ok ++ .error (.fieldCount 1 1) :: ys ∧
      Csv.Begins (Utf8.encode ['i', 'd', '\r', '\n', 'C', '\r', '\n']) (cs.length + 1) above gap ∧
      Csv.lineEnds (above ++ gap) + 1 =
        1 + Csv.loneReturns (above ++ gap) + gap.count Csv.lineFeed +
          if cs = [] ∧ (LoadError.fieldCount 1 1).isUnreadable then above.count Csv.lineFeed
          else 0 := by
  have failed : parse (Utf8.encode ['i', 'd', '\r', '\n', 'C', '\r', '\n']) =
      .error (.fieldCount 1 1) := by decide
  exact ⟨failed, by decide, line_of_parse_eq_error failed rfl⟩

end ClientFile
end CreditRating

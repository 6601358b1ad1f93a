import CreditRating.Proofs.ClientFile.Outcomes
import CreditRating.Proofs.Csv.Resuming

/-!
Loading of two texts in one. Where the first ends with a line, its clients come
first and its first error decides; else the second is loaded as it would be below
a header of its own.
-/

namespace CreditRating
namespace ClientFile

open LoadError (unplaced)

def below (header : List Char) (bs : List UInt8) : List UInt8 :=
  Utf8.encode header ++ Csv.lineFeed :: bs

theorem below_eq (h : List Char) (bs : List UInt8) :
    below h bs = Utf8.encode (h ++ ['\n']) ++ bs := by
  have feed : Utf8.encode ['\n'] = [Csv.lineFeed] := by decide
  rw [Utf8.encode_append, feed, below]
  simp

/-- A header line alone is one record, and its end is the end of a line. -/
theorem exists_rows_header {h : List Char} (header : HeaderLine h) :
    (∃ r, Csv.rows (Utf8.encode (h ++ ['\n'])) = [r]) ∧
      Csv.EndsLine (Utf8.encode (h ++ ['\n'])) := by
  obtain ⟨m, f, fs, closing, reads⟩ :=
    Csv.Reads.header (m := .recordStart) [] [] [] (by decide) (fun _ => header.ne_nil) header.plain
  have ended := reads.append (Csv.Reads.lineEnd (c := '\n') rfl closing.1 closing.2)
  have start : (h ++ ['\n']).head? ≠ some '\uFEFF' := by
    cases h with
    | nil => exact absurd rfl header.ne_nil
    | cons c h => exact header.start
  constructor
  · have fields := Csv.rows_unmarked start ended
    change _ = [_] at fields
    obtain ⟨r, hr, -⟩ := List.map_eq_singleton_iff.1 fields
    exact ⟨r, hr⟩
  · refine ⟨Utf8.encode h, ?_, ?_⟩
    · have feed : Utf8.encode ['\n'] = [Csv.lineFeed] := by decide
      rw [Utf8.encode_append, feed]
    · rw [Csv.State.after, if_neg (Csv.not_begins_mark header.start),
        (reads _ (Csv.shows_begin _)).mode_eq]
      exact closing.1

/-- What a record with these fields gives, places aside. -/
def outcomeOfFields (fs : List (List UInt8)) : Except LoadError Client :=
  (readRow .origin ⟨.origin, fs⟩).mapError unplaced

/-- What a record gives depends on its fields, and on its place only in what an error says. -/
theorem readRow_eq_outcomeOfFields (p : Csv.Position) (r : Csv.Row) :
    (readRow p r).mapError unplaced = outcomeOfFields r.fields := by
  have same : r.fields = (Csv.Row.mk .origin r.fields).fields := rfl
  exact unplaced_readRow same p .origin

theorem map_unplaced_readRow (p : Csv.Row → Csv.Position) (rs : List Csv.Row) :
    (rs.map fun r => readRow (p r) r).map (·.mapError unplaced) =
      (rs.map Csv.Row.fields).map outcomeOfFields := by
  rw [List.map_map, List.map_map]
  apply List.map_congr_left
  intro r _
  exact readRow_eq_outcomeOfFields (p r) r

theorem map_unplaced_outcomesOf (r : Csv.Row) (rs : List Csv.Row) :
    (outcomesOf (r :: rs)).map (·.mapError unplaced) =
      (rs.map Csv.Row.fields).map outcomeOfFields := by
  cases rs with
  | nil => rfl
  | cons r' rs =>
      rw [outcomesOf, List.map_cons, map_unplaced_readRow Csv.Row.start]
      congr 1
      exact readRow_eq_outcomeOfFields .origin r'

theorem exists_outcomesOf_append {rs : List Csv.Row} (h : rs ≠ []) (rs' : List Csv.Row) :
    ∃ os, outcomesOf (rs ++ rs') = outcomesOf rs ++ os ∧
      os.map (·.mapError unplaced) = (rs'.map Csv.Row.fields).map outcomeOfFields := by
  cases rs with
  | nil => exact absurd rfl h
  | cons r rs =>
      cases rs with
      | nil => exact ⟨outcomesOf (r :: rs'), rfl, map_unplaced_outcomesOf r rs'⟩
      | cons r' rs =>
          refine ⟨rs'.map fun r => readRow r.start r, ?_, map_unplaced_readRow Csv.Row.start rs'⟩
          simp [outcomesOf]

/-- Behind a whole line the records of a text give what they give below a header. -/
theorem exists_outcomes_append {as : List UInt8} {h : List Char} (record : Csv.rows as ≠ [])
    (cut : Csv.EndsLine as) (header : HeaderLine h) (bs : List UInt8) :
    ∃ os, outcomes (as ++ bs) = outcomes as ++ os ∧
      os.map (·.mapError unplaced) = (outcomes (below h bs)).map (·.mapError unplaced) := by
  obtain ⟨⟨r, one⟩, cut'⟩ := exists_rows_header header
  obtain ⟨rs, rs', rows, rows', same⟩ := cut.exists_rows_append cut' bs
  obtain ⟨os, split, unplaced⟩ := exists_outcomesOf_append record rs
  refine ⟨os, ?_, ?_⟩
  · rw [outcomes, rows, split, outcomes]
  · rw [unplaced, same, outcomes, below_eq, rows', one]
    exact (map_unplaced_outcomesOf r rs').symm

/-- What stands below a complete file has no bearing on it: an error above stays the first one, and
the clients below are those of a file of their own. -/
theorem parse_append (as bs : List UInt8) (header : List Char) (record : Csv.rows as ≠ [])
    (cut : Csv.EndsLine as) (plain : HeaderLine header) :
    (∀ e, e ≠ .noClients → parse as = .error e → parse (as ++ bs) = .error e) ∧
    ∀ cs, parse as = .ok cs ∨ parse as = .error .noClients ∧ cs = [] →
      (∀ ds, parse (below header bs) = .ok ds → parse (as ++ bs) = .ok (cs ++ ds)) ∧
      (parse (below header bs) = .error .noClients →
        parse (as ++ bs) = if cs = [] then .error .noClients else .ok cs) ∧
      ∀ e, e ≠ .noClients → parse (below header bs) = .error e →
        ∃ e', parse (as ++ bs) = .error e' ∧ e'.unplaced = e.unplaced := by
  obtain ⟨os, whole, unplaced⟩ := exists_outcomes_append record cut plain bs
  refine ⟨?_, ?_⟩
  · intro e he h
    obtain ⟨cs, ys, first⟩ := (parse_eq_error_iff he).1 h
    refine (parse_eq_error_iff he).2 ⟨cs, ys ++ os, ?_⟩
    rw [whole, first, List.append_assoc, List.cons_append]
  · intro cs h
    have first : outcomes as = cs.map .ok := by
      obtain h | ⟨h, rfl⟩ := h
      · exact (parse_eq_ok_iff.1 h).2
      · exact parse_eq_noClients_iff.1 h
    rw [first] at whole
    refine ⟨?_, ?_, ?_⟩
    · intro ds h
      obtain ⟨ne, second⟩ := parse_eq_ok_iff.1 h
      rw [second, List.map_map] at unplaced
      have rest : os = ds.map .ok := eq_map_ok_of_mapError unplaced
      refine parse_eq_ok_iff.2 ⟨by simp [ne], ?_⟩
      rw [whole, rest, List.map_append]
    · intro h
      rw [parse_eq_noClients_iff.1 h, List.map_nil, List.map_eq_nil_iff] at unplaced
      rw [unplaced, List.append_nil] at whole
      split
      · next none => exact parse_eq_noClients_iff.2 (by rw [whole, none]; rfl)
      · next some => exact parse_eq_ok_iff.2 ⟨some, whole⟩
    · intro e he h
      obtain ⟨ds, ys, second⟩ := (parse_eq_error_iff he).1 h
      rw [second, List.map_append, List.map_map, List.map_cons] at unplaced
      obtain ⟨e', ys', rest, same⟩ := exists_of_mapError unplaced
      have he' : e' ≠ .noClients := by
        rintro rfl
        cases e with
        | noClients => exact he rfl
        | _ => cases same
      refine ⟨e', (parse_eq_error_iff he').2 ⟨cs ++ ds, ys', ?_⟩, same⟩
      rw [whole, rest, List.map_append, List.append_assoc]

/-- A header with a line break in it and a client, and below a record that two lines share. -/
theorem parse_append_shortRecord :
    ∃ e, parse (Utf8.encode "\"\n\"\r\nC1,,AT,,30,0,x,y,0\n".toList ++
        Utf8.encode "\n\"C\n2\",x\r".toList) = .error e ∧
      e.unplaced = .fieldCount 0 2 := by
  have cut : Csv.EndsLine (Utf8.encode "\"\n\"\r\nC1,,AT,,30,0,x,y,0\n".toList) :=
    ⟨Utf8.encode "\"\n\"\r\nC1,,AT,,30,0,x,y,0".toList, by decide +kernel, by decide +kernel⟩
  have plain : HeaderLine ['i', 'd'] := ⟨by decide, by simp [Csv.isLineEndChar], by simp⟩
  have clients : parse (Utf8.encode "\"\n\"\r\nC1,,AT,,30,0,x,y,0\n".toList) =
      .ok [⟨"C1", "", "AT", "", 30, 0.0, "x", "y", 0.0, 0.0⟩] := by decide +kernel
  exact ((parse_append _ _ ['i', 'd'] (by decide +kernel) cut plain).2 _ (.inl clients)).2.2
    (.fieldCount 2 2) nofun (by decide +kernel)

end ClientFile
end CreditRating

import CreditRating.Proofs.Csv.Written
import CreditRating.Report
import Mathlib.Data.List.Basic

/-!
The report can be read back. The reader finds the records that were written, field
for field, whatever characters the fields hold.
-/

namespace CreditRating

theorem Utf8.encode_injective : Function.Injective encode := by
  intro s t h
  have decoded := congrArg decode h
  rw [decode_encode, decode_encode] at decoded
  exact Except.ok.inj decoded

namespace Csv

namespace Reads

variable {m : Mode} (fs : List (List Char)) (rs : List (List (List Char)))

/-- A field as the writer writes it. Only an empty one can leave the reader between records. -/
theorem writeField (s : List Char) (hm : m = .fieldStart ∨ m = .recordStart) :
    ∃ m', m' ≠ .quoted ∧ (m' = .recordStart → m = .recordStart ∧ s = []) ∧
      Reads ⟨m, [], fs, rs⟩ (writeField s) ⟨m', s, fs, rs⟩ := by
  have outside : m ≠ .quoted := by
    obtain rfl | rfl := hm <;> decide
  rw [Csv.writeField]
  cases special : s.any needsQuotes with
  | true =>
      refine ⟨.quoteSeen, by decide, fun start => absurd start (by decide), ?_⟩
      exact (cons (openingQuote hm.symm) doubled).append closingQuote
  | false =>
      by_cases none : s = []
      · subst none
        exact ⟨m, outside, fun start => ⟨start, rfl⟩, nil _⟩
      · have plain : ∀ c ∈ s, needsQuotes c = false := by
          intro c hc
          simpa using List.any_eq_false.1 special c hc
        exact ⟨.bare, by decide, fun start => absurd start (by decide),
          Reads.plain outside none plain⟩

theorem writeFields {r : List (List Char)} (hm : m = .fieldStart ∨ m = .recordStart)
    (ne : r ≠ []) (full : m = .recordStart → r ≠ [[]]) :
    ∃ m' ss s, m'.Closing ∧ r = ss ++ [s] ∧
      Reads ⟨m, [], fs, rs⟩ ([','].intercalate (r.map Csv.writeField)) ⟨m', s, fs ++ ss, rs⟩ := by
  induction r generalizing m fs with
  | nil => exact absurd rfl ne
  | cons s r ih =>
      obtain ⟨m', outside, between, reads⟩ := writeField fs rs s hm
      cases r with
      | nil =>
          refine ⟨m', [], s, ⟨outside, ?_⟩, rfl, by simpa using reads⟩
          intro h
          obtain ⟨start, none⟩ := between h
          exact full start (none ▸ rfl)
      | cons s' r =>
          obtain ⟨m'', ss, t, closing, rest, reads'⟩ :=
            ih (fs ++ [s]) (m := .fieldStart) (.inl rfl) (List.cons_ne_nil s' r) nofun
          refine ⟨m'', s :: ss, t, closing, by rw [rest, List.cons_append], ?_⟩
          rw [List.append_assoc] at reads'
          simpa using reads.append (cons (comma outside) reads')

theorem writeRecord {r : List (List Char)} (ne : r ≠ []) :
    Reads ⟨.recordStart, [], [], rs⟩ (writeRecord r) ⟨.recordStart, [], [], rs ++ [r]⟩ := by
  by_cases empty : r = [[]]
  · subst empty
    exact cons (openingQuote (.inl rfl)) (cons closingQuote (lineEnd rfl (by decide) (by decide)))
  · obtain ⟨m, ss, s, closing, rfl, reads⟩ := writeFields [] rs (.inr rfl) ne fun _ => empty
    rw [writeRecord_eq empty]
    exact reads.append (lineEnd rfl closing.1 closing.2)

/-- The reader finds the records that were written, and is ready for the next one. -/
theorem writeRecords {ts : List (List (List Char))} (ne : ∀ r ∈ ts, r ≠ []) :
    Reads ⟨.recordStart, [], [], rs⟩ (writeRecords ts) ⟨.recordStart, [], [], rs ++ ts⟩ := by
  induction ts generalizing rs with
  | nil =>
      rw [List.append_nil]
      exact nil _
  | cons r ts ih =>
      have rest := ih (rs ++ [r]) fun s hs => ne s (.tail r hs)
      rw [List.append_assoc] at rest
      exact (writeRecord rs (ne r (.head ts))).append rest

end Reads

/-- The reader undoes the writer. Only a mark at the very start would be lost. -/
theorem rows_writeRecords {ts : List (List (List Char))} (ne : ∀ r ∈ ts, r ≠ [])
    (start : (writeRecords ts).head? ≠ some '\uFEFF') :
    (rows (Utf8.encode (writeRecords ts))).map Row.fields = ts.map (List.map Utf8.encode) :=
  rows_unmarked start (Reads.writeRecords [] ne)

theorem decode_rows_writeRecords {ts : List (List (List Char))} (ne : ∀ r ∈ ts, r ≠ [])
    (start : (writeRecords ts).head? ≠ some '\uFEFF') :
    ((rows (Utf8.encode (writeRecords ts))).map fun r => r.fields.map Utf8.decode) =
      ts.map (List.map Except.ok) := by
  calc (rows (Utf8.encode (writeRecords ts))).map (fun r => r.fields.map Utf8.decode)
      = ((rows (Utf8.encode (writeRecords ts))).map Row.fields).map (List.map Utf8.decode) :=
        List.map_map.symm
    _ = (ts.map (List.map Utf8.encode)).map (List.map Utf8.decode) := by
        rw [rows_writeRecords ne start]
    _ = ts.map (List.map Except.ok) := by
        simp only [List.map_map, Function.comp_def, Utf8.decode_encode]

/-- Different records are written differently. -/
theorem writeRecords_injective {ts us : List (List (List Char))} (hts : ∀ r ∈ ts, r ≠ [])
    (hus : ∀ r ∈ us, r ≠ []) (start : (writeRecords ts).head? ≠ some '\uFEFF')
    (h : writeRecords ts = writeRecords us) : ts = us := by
  have read := rows_writeRecords hts start
  rw [h, rows_writeRecords hus (h ▸ start)] at read
  exact (List.map_injective_iff.2 (List.map_injective_iff.2 Utf8.encode_injective) read).symm

end Csv

def Rating.ofLabel? (s : String) : Option Rating :=
  all.find? fun r => r.label = s

theorem Rating.ofLabel?_label (r : Rating) : ofLabel? r.label = some r := by
  cases r <;> rfl

theorem Rating.label_injective : Function.Injective label := by
  intro r s h
  have found := congrArg ofLabel? h
  rw [ofLabel?_label, ofLabel?_label] at found
  exact Option.some.inj found

namespace Report

def texts (rs : List Scored) : List (List (List Char)) :=
  (header :: rs.map record).map fun r => r.map (·.toList)

theorem render_eq (rs : List Scored) : (render rs).toList = Csv.writeRecords (texts rs) :=
  String.toList_ofList

theorem texts_ne_nil (rs : List Scored) : ∀ r ∈ texts rs, r ≠ [] := by
  intro r hr
  obtain ⟨fields, h, rfl⟩ := List.mem_map.1 hr
  obtain rfl | h := List.mem_cons.1 h
  · exact List.cons_ne_nil _ _
  · obtain ⟨s, _, rfl⟩ := List.mem_map.1 h
    exact List.cons_ne_nil _ _

theorem head?_texts (rs : List Scored) : (Csv.writeRecords (texts rs)).head? ≠ some '\uFEFF' := by
  have first : (Csv.writeRecords (texts rs)).head? = some 'C' := rfl
  rw [first]
  decide

/-- What a report shows of a result. -/
def shown (r : Scored) : String × String × Rating :=
  (r.client.id, Decimal.fixed 2 r.client.score, r.rating)

def recordOf (s : String × String × Rating) : List String :=
  [s.1, s.2.1, s.2.2.label]

theorem map_record (rs : List Scored) : rs.map record = (rs.map shown).map recordOf := by
  rw [List.map_map]
  rfl

theorem recordOf_injective : Function.Injective recordOf := by
  intro r s h
  simp only [recordOf, List.cons.injEq, and_true] at h
  exact Prod.ext h.1 (Prod.ext h.2.1 (Rating.label_injective h.2.2))

theorem texts_injective {rs ss : List Scored} (h : texts rs = texts ss) :
    rs.map shown = ss.map shown := by
  have chars : Function.Injective fun r : List String => r.map (·.toList) :=
    List.map_injective_iff.2 fun _ _ => String.toList_inj.1
  have records := (List.cons.inj (List.map_injective_iff.2 chars h)).2
  rw [map_record, map_record] at records
  exact List.map_injective_iff.2 recordOf_injective records

/-- The reader finds the header and a record for each result, with the texts that were
written. So a report tells the ids, the printed scores and the bands of its results. -/
theorem render_decodable (rs ss : List Scored) :
    ((Csv.rows (Utf8.encode (render rs).toList)).map fun r => r.fields.map Utf8.decode) =
        (["ClientID", "Score", "Rating"] :: rs.map fun r =>
          [r.client.id, Decimal.fixed 2 r.client.score, r.rating.label]).map
            (List.map fun s => .ok s.toList) ∧
      (render rs = render ss ↔ rs.map shown = ss.map shown) := by
  refine ⟨?_, ?_, ?_⟩
  · rw [render_eq, Csv.decode_rows_writeRecords (texts_ne_nil rs) (head?_texts rs), texts,
      List.map_map]
    simp only [Function.comp_def, List.map_map]
    rfl
  · intro h
    apply texts_injective
    apply Csv.writeRecords_injective (texts_ne_nil rs) (texts_ne_nil ss) (head?_texts rs)
    rw [← render_eq, ← render_eq, h]
  · intro h
    rw [← String.toList_inj, render_eq, render_eq, texts, texts, map_record, map_record, h]

end Report
end CreditRating

import CreditRating.Proofs.Answers
import CreditRating.Proofs.ClientFile.Fields
import CreditRating.Proofs.Csv.Written

/-!
Loading undoes writing. A client list that is written below a header, in any of
the forms that a field and a line may have, is read as that list, and every list
that is read consists of clients that can be written so.
-/

namespace CreditRating

def Client.columns (c : Client) : List (List Char) :=
  [c.id.toList, c.name.toList, c.country.toList, c.clientType.toList, (toString c.age.toInt).toList,
    (plainText c.income).toList, c.employment.toList, c.industry.toList, (plainText c.debt).toList]

/-- A client that has not been scored, with an id and no white space around its texts. -/
structure Client.Loadable (c : Client) : Prop where
  score_eq : c.score = 0.0
  id_ne : c.id ≠ ""
  trimmed : ∀ s ∈ [c.id, c.name, c.country, c.clientType, c.employment, c.industry],
    Text.Trimmed Text.isBlank s.toList

namespace ClientFile

structure HeaderLine (h : List Char) : Prop where
  ne_nil : h ≠ []
  plain : ∀ c ∈ h, c ≠ '"' ∧ Csv.isLineEndChar c = false
  start : h.head? ≠ some '\uFEFF'

/-- The characters of a file: a header line, line ends, and the records of the clients. -/
inductive WrittenText (cs : List Client) : List Char → Prop
  | mk {h e w : List Char} (header : HeaderLine h) (ends : Csv.LineEnds e) (ended : e ≠ [])
      (records : Csv.WrittenRecords (cs.map Client.columns) w) : WrittenText cs (h ++ e ++ w)

inductive WrittenFile (cs : List Client) : List UInt8 → Prop
  | unmarked {t : List Char} (text : WrittenText cs t) : WrittenFile cs (Utf8.encode t)
  | marked {t : List Char} (text : WrittenText cs t) :
      WrittenFile cs (Csv.byteOrderMark ++ Utf8.encode t)

section

variable {c : Client} {cs : List Client}

theorem legible_columns (h : c.Loadable) : Csv.Legible c.columns := by
  refine ⟨?_, ?_⟩
  · intro e
    have empty : c.id.toList = [] := Option.some.inj e
    exact h.id_ne (String.toList_eq_nil_iff.1 empty)
  · have texts := h.trimmed
    have age := trimmed_of_numeral (Decimal.numeral_toString c.age.toInt)
    have income := trimmed_of_numeral (Decimal.numeral_plainText c.income)
    have debt := trimmed_of_numeral (Decimal.numeral_plainText c.debt)
    simp only [List.forall_mem_cons, Client.columns] at texts ⊢
    obtain ⟨id, name, country, clientType, employment, industry, none⟩ := texts
    exact ⟨id, name, country, clientType, age, income, employment, industry, debt, nofun⟩

/-- The columns of a client describe that client. -/
theorem clientOf_columns (h : c.Loadable) (line : ℕ) : clientOf line c.columns = .ok c := by
  have id_ne : c.id.toList ≠ [] := fun e => h.id_ne (String.toList_eq_nil_iff.1 e)
  have score : (0.0 : Float) = c.score := h.score_eq.symm
  simp only [Client.columns, clientOf, if_neg id_ne, number, readAge?_toString,
    Decimal.read?_plainText, String.ofList_toList, score]
  rfl

theorem readRow_columns (h : c.Loadable) {r : Csv.Row} {ts : List (List Char)}
    (fields : r.fields = ts.map Utf8.encode) (columns : ts.map Text.trim = c.columns)
    (asked : Csv.Position) : readRow asked r = .ok c := by
  simp only [readRow, fields, readFields_encode, columns]
  exact clientOf_columns h r.start.line

theorem readRows_columns (h : ∀ c ∈ cs, c.Loadable) {rs : List Csv.Row}
    {ts : List (List (List Char))} (fields : rs.map Csv.Row.fields = ts.map (List.map Utf8.encode))
    (columns : ts.map (List.map Text.trim) = cs.map Client.columns) : readRows rs = .ok cs := by
  induction cs generalizing rs ts with
  | nil =>
      have none : ts = [] := List.map_eq_nil_iff.1 columns
      rw [none, List.map_nil, List.map_eq_nil_iff] at fields
      rw [fields]
      rfl
  | cons c cs ih =>
      obtain ⟨t, ts, rfl, column, columns⟩ := List.map_eq_cons_iff.1 columns
      obtain ⟨r, rs, rfl, field, fields⟩ := List.map_eq_cons_iff.1 fields
      have first := readRow_columns (h c (by simp)) field column r.start
      have rest : readRows rs = .ok cs := ih (fun d hd => h d (by simp [hd])) fields columns
      rw [readRows, List.mapM_cons, first]
      change (do let bs ← readRows rs; return c :: bs) = _
      rw [rest]
      rfl

theorem readRecords_columns (h : ∀ c ∈ cs, c.Loadable) (ne : cs ≠ []) {rs : List Csv.Row}
    {head : List (List Char)} {ts : List (List (List Char))}
    (fields : rs.map Csv.Row.fields = (head :: ts).map (List.map Utf8.encode))
    (columns : ts.map (List.map Text.trim) = cs.map Client.columns) : readRecords rs = .ok cs := by
  cases cs with
  | nil => exact absurd rfl ne
  | cons c cs =>
      obtain ⟨t, ts, rfl, column, columns⟩ := List.map_eq_cons_iff.1 columns
      obtain ⟨r₀, rs, rfl, _, fields⟩ := List.map_eq_cons_iff.1 fields
      obtain ⟨r, rs, rfl, field, fields⟩ := List.map_eq_cons_iff.1 fields
      have first := readRow_columns (h c (by simp)) field column .origin
      have rest := readRows_columns (fun d hd => h d (by simp [hd])) fields columns
      rw [readRecords, first]
      change (do let cs ← readRows rs; return c :: cs) = _
      rw [rest]
      rfl

/-- The reader follows the grammar of a written file record by record. -/
theorem reads_written {t : List Char} (h : ∀ c ∈ cs, c.Loadable) (written : WrittenText cs t) :
    ∃ v head ts, v.finished = head :: ts ∧
      ts.map (List.map Text.trim) = cs.map Client.columns ∧
      Csv.Reads ⟨.recordStart, [], [], []⟩ t v := by
  obtain ⟨header, ends, ended, records⟩ := written
  have legible : ∀ r ∈ cs.map Client.columns, Csv.Legible r := by
    intro r hr
    obtain ⟨c, hc, rfl⟩ := List.mem_map.1 hr
    exact legible_columns (h c hc)
  obtain ⟨m, f, fs, closing, readsHeader⟩ :=
    Csv.Reads.header (m := .recordStart) [] [] [] (by decide) (fun _ => header.ne_nil) header.plain
  obtain ⟨v, ts, finished, columns, readsRecords⟩ :=
    Csv.Reads.records [fs ++ [f]] records legible
  exact ⟨v, fs ++ [f], ts, finished, columns,
    (readsHeader.append (Csv.Reads.ended closing ends ended)).append readsRecords⟩

theorem head_written {t : List Char} (written : WrittenText cs t) : t.head? ≠ some '\uFEFF' := by
  cases written with
  | @mk h e w header ends ended records =>
      cases h with
      | nil => exact absurd rfl header.ne_nil
      | cons c h => exact header.start

/-- A file with the records of clients is read as these clients, however it is quoted and spaced. -/
theorem parse_written {bs : List UInt8} (h : ∀ c ∈ cs, c.Loadable) (written : WrittenFile cs bs) :
    parse bs = .ok cs := by
  have ne : cs ≠ [] := by
    rintro rfl
    cases written with
    | unmarked text => cases text with | mk _ _ _ records => cases records
    | marked text => cases text with | mk _ _ _ records => cases records
  cases written with
  | unmarked text =>
      obtain ⟨v, head, ts, finished, columns, reads⟩ := reads_written h text
      have rows := Csv.rows_unmarked (head_written text) reads
      rw [finished] at rows
      exact readRecords_columns h ne rows columns
  | marked text =>
      obtain ⟨v, head, ts, finished, columns, reads⟩ := reads_written h text
      have rows := Csv.rows_marked reads
      rw [finished] at rows
      exact readRecords_columns h ne rows columns

theorem exists_decode_of_readField {bs : List UInt8} {t : List Char} (h : readField bs = .ok t) :
    ∃ s, Utf8.decode (Text.trimBoth isAsciiBlank bs) = .ok s ∧ t = Text.trim s := by
  rw [readField] at h
  cases hd : Utf8.decode (Text.trimBoth isAsciiBlank bs) with
  | error n => rw [hd] at h; cases h
  | ok s =>
      rw [hd] at h
      cases h
      exact ⟨s, rfl, rfl⟩

theorem exists_readField_of_readFields {position : Csv.Position} {n : ℕ} {fs : List (List UInt8)}
    {ts : List (List Char)} (h : readFields position n fs = .ok ts) :
    ∀ t ∈ ts, ∃ f ∈ fs, readField f = .ok t := by
  induction fs generalizing n ts with
  | nil =>
      cases h
      nofun
  | cons f fs ih =>
      rw [readFields] at h
      split at h
      · cases h
      · next s field =>
          cases hs : readFields position (n + 1) fs with
          | error fault => rw [hs] at h; cases h
          | ok ss =>
              rw [hs] at h
              cases h
              intro t ht
              cases ht with
              | head => exact ⟨f, .head fs, field⟩
              | tail _ ht =>
                  obtain ⟨f', mem, field'⟩ := ih hs t ht
                  exact ⟨f', .tail f mem, field'⟩

/-- The texts of a client that a record describes are fields of the record. -/
theorem texts_of_clientOf {line : ℕ} {ts : List (List Char)} (h : clientOf line ts = .ok c) :
    c.score = 0.0 ∧ c.id ≠ "" ∧
      ∀ s ∈ [c.id, c.name, c.country, c.clientType, c.employment, c.industry], s.toList ∈ ts := by
  unfold clientOf at h
  split at h
  · next id name country clientType age income employment industry debt =>
      split at h
      · cases h
      · next id_ne =>
          obtain ⟨age, -, h⟩ := exists_of_bind h
          obtain ⟨income, -, h⟩ := exists_of_bind h
          obtain ⟨debt, -, h⟩ := exists_of_bind h
          cases h
          refine ⟨rfl, fun e => id_ne (String.ofList_eq_empty_iff.1 e), ?_⟩
          simp
  · cases h

/-- The texts of a client that was read from a record, as the fields that they were read from. -/
theorem texts_of_readRow {asked : Csv.Position} {r : Csv.Row} (h : readRow asked r = .ok c) :
    c.score = 0.0 ∧ c.id ≠ "" ∧
      ∀ s ∈ [c.id, c.name, c.country, c.clientType, c.employment, c.industry],
        ∃ f ∈ r.fields, readField f = .ok s.toList := by
  rw [readRow] at h
  split at h
  · cases h
  · next ts fields =>
      obtain ⟨score, id_ne, texts⟩ := texts_of_clientOf h
      exact ⟨score, id_ne, fun s hs => exists_readField_of_readFields fields _ (texts s hs)⟩

theorem trimmed_readField {bs : List UInt8} {t : List Char} (h : readField bs = .ok t) :
    Text.Trimmed Text.isBlank t := by
  obtain ⟨s, -, rfl⟩ := exists_decode_of_readField h
  exact Text.trimmed_trimBoth s

/-- A client that has been read could have been written. -/
theorem loadable_of_readRow {asked : Csv.Position} {r : Csv.Row} (h : readRow asked r = .ok c) :
    c.Loadable := by
  obtain ⟨score, id_ne, texts⟩ := texts_of_readRow h
  refine ⟨score, id_ne, fun s hs => ?_⟩
  obtain ⟨f, -, field⟩ := texts s hs
  exact trimmed_readField field

theorem loadable_of_readRows {rs : List Csv.Row} (h : readRows rs = .ok cs) :
    ∀ c ∈ cs, c.Loadable := by
  induction rs generalizing cs with
  | nil =>
      cases h
      nofun
  | cons r rs ih =>
      rw [readRows, List.mapM_cons] at h
      obtain ⟨c, first, h⟩ := exists_of_bind h
      obtain ⟨ds, rest, h⟩ := exists_of_bind h
      cases h
      exact List.forall_mem_cons.2 ⟨loadable_of_readRow first, ih rest⟩

theorem loadable_of_parse {bs : List UInt8} (h : parse bs = .ok cs) :
    cs ≠ [] ∧ ∀ c ∈ cs, c.Loadable := by
  unfold parse readRecords at h
  split at h
  · obtain ⟨c, first, h⟩ := exists_of_bind h
    obtain ⟨ds, rest, h⟩ := exists_of_bind h
    cases h
    exact ⟨List.cons_ne_nil c ds,
      List.forall_mem_cons.2 ⟨loadable_of_readRow first, loadable_of_readRows rest⟩⟩
  · cases h

/-- Clients that can be loaded are read from every file that writes them, and no others are read. -/
theorem parse_roundTrip (cs : List Client) (bs : List UInt8) :
    ((∀ c ∈ cs, c.Loadable) → WrittenFile cs bs → parse bs = .ok cs) ∧
      (parse bs = .ok cs → cs ≠ [] ∧ ∀ c ∈ cs, c.Loadable) :=
  ⟨parse_written, loadable_of_parse⟩

def quotedClient : Client :=
  ⟨"A,1", "B \"b\"", "AT", "", -5, 1500.5, "x", "", 0.0 / 0.0, 0.0⟩

theorem parse_roundTrip_quotedClient :
    parse (Csv.byteOrderMark ++
      Utf8.encode "id,...\r\n\n\"A,1\",\"B \"\"b\"\"\", AT\t,,-5,1500.5,x,,NaN".toList) =
        .ok [quotedClient] ∧
      [quotedClient] ≠ [] ∧ ∀ c ∈ [quotedClient], c.Loadable := by
  have bare {s : List Char} (h : s.any Csv.needsQuotes = false) :
      Csv.WrittenField s ([] ++ s ++ []) :=
    .bare h nofun nofun
  have padded : Csv.WrittenField quotedClient.country.toList ([' '] ++ ['A', 'T'] ++ ['\t']) :=
    .bare (by decide) (by decide) (by decide)
  have fields : Csv.WrittenFields quotedClient.columns _ :=
    .cons .quoted (.cons .quoted (.cons padded (.cons (bare (by decide)) (.cons (bare (by decide))
      (.cons (bare (by decide)) (.cons (bare (by decide)) (.cons (bare (by decide))
        (.last (bare (by decide))))))))))
  have header : HeaderLine ['i', 'd', ',', '.', '.', '.'] :=
    ⟨by decide, by simp [Csv.isLineEndChar], by simp⟩
  have text : WrittenText [quotedClient] (_ ++ ['\r', '\n', '\n'] ++ (_ ++ [])) :=
    .mk header (by decide) (by decide) (.last fields (by decide))
  have chars : WrittenText [quotedClient]
      "id,...\r\n\n\"A,1\",\"B \"\"b\"\"\", AT\t,,-5,1500.5,x,,NaN".toList := by
    refine cast (congrArg (WrittenText _) ?_) text
    decide
  have read := (parse_roundTrip [quotedClient] _).1
    (List.forall_mem_singleton.2 ⟨rfl, by decide, by decide⟩) (.marked chars)
  exact ⟨read, (parse_roundTrip [quotedClient] _).2 read⟩

/-- Exactly the lists of such clients are ever loaded. -/
theorem exists_parse_eq_ok : (∃ bs, parse bs = .ok cs) ↔ cs ≠ [] ∧ ∀ c ∈ cs, c.Loadable := by
  refine ⟨fun ⟨bs, h⟩ => loadable_of_parse h, fun ⟨ne, h⟩ => ?_⟩
  have full : ∀ r ∈ cs.map Client.columns, r ≠ [] ∧ r ≠ [[]] := by
    intro r hr
    obtain ⟨c, _, rfl⟩ := List.mem_map.1 hr
    exact ⟨by simp [Client.columns], by simp [Client.columns]⟩
  have records := Csv.writtenRecords_writeRecords (mt List.map_eq_nil_iff.1 ne) full
  have header : HeaderLine ['i', 'd'] := ⟨by decide, by simp [Csv.isLineEndChar], by simp⟩
  have ends : Csv.LineEnds ['\n'] := fun c hc => List.mem_singleton.1 hc ▸ rfl
  exact ⟨_, parse_written h (.unmarked (.mk header ends (by decide) records))⟩

end

end ClientFile
end CreditRating

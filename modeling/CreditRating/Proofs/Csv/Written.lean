import CreditRating.Proofs.Csv.Reading
import CreditRating.Proofs.Text.Trim

/-!
Texts that stand for records, and what the reader makes of them. A field stands
bare with spaces and tabs around it or in quotes. Records end with line ends, as
many as one likes, and the last one may do without.
-/

namespace CreditRating
namespace Csv

def Pad (t : List Char) : Prop := ∀ c ∈ t, c = ' ' ∨ c = '\t'

def LineEnds (t : List Char) : Prop := ∀ c ∈ t, isLineEndChar c

instance (t : List Char) : Decidable (Pad t) := List.decidableBAll _ _

instance (t : List Char) : Decidable (LineEnds t) := List.decidableBAll _ _

inductive WrittenField (s : List Char) : List Char → Prop
  | bare {l r : List Char} (plain : s.any needsQuotes = false) (left : Pad l) (right : Pad r) :
      WrittenField s (l ++ s ++ r)
  | quoted : WrittenField s ('"' :: doubled s ++ ['"'])

inductive WrittenFields : List (List Char) → List Char → Prop
  | last {s w : List Char} (field : WrittenField s w) : WrittenFields [s] w
  | cons {s w ws : List Char} {ss : List (List Char)} (field : WrittenField s w)
      (fields : WrittenFields ss ws) : WrittenFields (s :: ss) (w ++ ',' :: ws)

inductive WrittenRecords : List (List (List Char)) → List Char → Prop
  | last {r : List (List Char)} {w e : List Char} (record : WrittenFields r w)
      (ends : LineEnds e) : WrittenRecords [r] (w ++ e)
  | cons {r : List (List Char)} {rs : List (List (List Char))} {w e ws : List Char}
      (record : WrittenFields r w) (ends : LineEnds e) (ended : e ≠ [])
      (records : WrittenRecords rs ws) : WrittenRecords (r :: rs) (w ++ e ++ ws)

/-- The texts are without white space around them, and the first is not empty. -/
def Legible (r : List (List Char)) : Prop :=
  r.head? ≠ some [] ∧ ∀ s ∈ r, Text.Trimmed Text.isBlank s

def Mode.Closing (m : Mode) : Prop := m ≠ .quoted ∧ m ≠ .recordStart

def View.finished (v : View) : List (List (List Char)) :=
  match v.mode with
  | .recordStart => v.rows
  | _ => v.rows ++ [v.fields ++ [v.field]]

theorem View.finished_of_closing {m : Mode} (h : m.Closing) {f : List Char}
    {fs : List (List Char)} {rs : List (List (List Char))} :
    (⟨m, f, fs, rs⟩ : View).finished = rs ++ [fs ++ [f]] := by
  cases m with
  | recordStart => exact absurd rfl h.2
  | _ => rfl

theorem State.Shows.finish {s : State} {v : View} (h : s.Shows v) :
    s.finish.map Row.fields = v.finished.map (List.map Utf8.encode) := by
  have ended := h.endRecord.rows_eq
  cases hm : v.mode <;>
    simp [State.finish, View.finished, h.mode_eq, hm, h.rows_eq, ended]

theorem Pad.forall {p : Char → Prop} {t : List Char} (h : Pad t) (space : p ' ') (tab : p '\t') :
    ∀ c ∈ t, p c := by
  intro c hc
  cases h c hc with
  | inl e => exact e ▸ space
  | inr e => exact e ▸ tab

theorem trim_pad {l s r : List Char} (left : Pad l) (hs : Text.Trimmed Text.isBlank s)
    (right : Pad r) : Text.trim (l ++ s ++ r) = s :=
  Text.trimBoth_eq (left.forall (by decide) (by decide)) hs (right.forall (by decide) (by decide))

theorem needsQuotes_pad {t : List Char} (h : Pad t) : ∀ c ∈ t, needsQuotes c = false :=
  h.forall (by decide) (by decide)

theorem writtenField_writeField (s : List Char) : WrittenField s (writeField s) := by
  rw [writeField]
  cases h : s.any needsQuotes with
  | true => exact .quoted
  | false =>
      have bare := WrittenField.bare (l := []) (r := []) h nofun nofun
      simpa using bare

theorem writtenFields_intercalate {r : List (List Char)} (ne : r ≠ []) :
    WrittenFields r ([','].intercalate (r.map writeField)) := by
  induction r with
  | nil => exact absurd rfl ne
  | cons s r ih =>
      cases r with
      | nil => simpa using WrittenFields.last (writtenField_writeField s)
      | cons s' r =>
          have rest := ih (List.cons_ne_nil s' r)
          simpa using WrittenFields.cons (writtenField_writeField s) rest

theorem writeRecord_eq {r : List (List Char)} (h : r ≠ [[]]) :
    writeRecord r = [','].intercalate (r.map writeField) ++ ['\n'] := by
  unfold writeRecord
  split
  · exact absurd rfl h
  · rfl

theorem writtenRecords_writeRecords {rs : List (List (List Char))} (ne : rs ≠ [])
    (h : ∀ r ∈ rs, r ≠ [] ∧ r ≠ [[]]) : WrittenRecords rs (writeRecords rs) := by
  have ends : LineEnds ['\n'] := by
    intro c hc
    exact List.mem_singleton.1 hc ▸ rfl
  induction rs with
  | nil => exact absurd rfl ne
  | cons r rs ih =>
      obtain ⟨some, full⟩ := h r (by simp)
      have record := writtenFields_intercalate some
      rw [writeRecords, List.flatMap_cons, writeRecord_eq full]
      cases rs with
      | nil => simpa using WrittenRecords.last record ends
      | cons r' rs =>
          have rest := ih (List.cons_ne_nil r' rs) fun s hs => h s (by simp [hs])
          exact WrittenRecords.cons record ends (by decide) rest

namespace Reads

variable {m : Mode} {f t : List Char} {fs : List (List Char)} {rs : List (List (List Char))}

theorem bare (h : ∀ c ∈ t, needsQuotes c = false) :
    Reads ⟨.bare, f, fs, rs⟩ t ⟨.bare, f ++ t, fs, rs⟩ := by
  induction t generalizing f with
  | nil => simpa using nil ⟨.bare, f, fs, rs⟩
  | cons c t ih =>
      have rest := ih (f := f ++ [c]) fun d hd => h d (by simp [hd])
      rw [List.append_assoc] at rest
      exact cons (other (.inl (h c (by simp)))) rest

theorem plain (hm : m ≠ .quoted) (ne : t ≠ []) (h : ∀ c ∈ t, needsQuotes c = false) :
    Reads ⟨m, f, fs, rs⟩ t ⟨.bare, f ++ t, fs, rs⟩ := by
  cases t with
  | nil => exact absurd rfl ne
  | cons c t =>
      have onward : m.onward = .bare := by
        cases m with
        | quoted => exact absurd rfl hm
        | _ => rfl
      have first : Reads ⟨m, f, fs, rs⟩ [c] ⟨m.onward, f ++ [c], fs, rs⟩ :=
        other (.inl (h c (by simp)))
      have rest : Reads ⟨.bare, f ++ [c], fs, rs⟩ t ⟨.bare, f ++ [c] ++ t, fs, rs⟩ :=
        bare fun d hd => h d (by simp [hd])
      rw [onward] at first
      rw [List.append_assoc] at rest
      exact cons first rest

theorem doubled : Reads ⟨.quoted, f, fs, rs⟩ (doubled t) ⟨.quoted, f ++ t, fs, rs⟩ := by
  induction t generalizing f with
  | nil => simpa [Csv.doubled] using nil ⟨.quoted, f, fs, rs⟩
  | cons c t ih =>
      have rest := ih (f := f ++ [c])
      rw [List.append_assoc] at rest
      by_cases hc : c = '"'
      · subst hc
        exact cons closingQuote (cons secondQuote rest)
      · rw [Csv.doubled, if_neg hc]
        exact cons (other (.inr ⟨rfl, hc⟩)) rest

theorem lineEnds {e : List Char} (h : LineEnds e) :
    Reads ⟨.recordStart, f, fs, rs⟩ e ⟨.recordStart, f, fs, rs⟩ := by
  induction e with
  | nil => exact nil _
  | cons c e ih =>
      exact cons (lineEnd_between (h c (by simp))) (ih fun d hd => h d (by simp [hd]))

theorem ended {e : List Char} (hm : m.Closing) (h : LineEnds e) (ne : e ≠ []) :
    Reads ⟨m, f, fs, rs⟩ e ⟨.recordStart, [], [], rs ++ [fs ++ [f]]⟩ := by
  cases e with
  | nil => exact absurd rfl ne
  | cons c e =>
      have rest : LineEnds e := fun d hd => h d (by simp [hd])
      exact cons (lineEnd (h c (by simp)) hm.1 hm.2) (lineEnds rest)

variable (f fs rs)

/-- Where a field begins. An empty field begins no record. -/
theorem field {s w : List Char} (hw : WrittenField s w) (hs : Text.Trimmed Text.isBlank s)
    (hm : m = .fieldStart ∨ m = .recordStart ∧ s ≠ []) :
    ∃ m' t, m'.Closing ∧ Text.trim t = s ∧ Reads ⟨m, [], fs, rs⟩ w ⟨m', t, fs, rs⟩ := by
  have open_ : m ≠ .quoted := by
    obtain rfl | ⟨rfl, _⟩ := hm <;> decide
  cases hw with
  | @bare l r plain left right =>
      have all : ∀ c ∈ l ++ s ++ r, needsQuotes c = false := by
        intro c hc
        simp only [List.mem_append] at hc
        obtain (hc | hc) | hc := hc
        · exact needsQuotes_pad left c hc
        · simpa using List.any_eq_false.1 plain c hc
        · exact needsQuotes_pad right c hc
      by_cases ne : l ++ s ++ r = []
      · rw [ne]
        simp only [List.append_eq_nil_iff] at ne
        obtain rfl | ⟨_, hs'⟩ := hm
        · exact ⟨.fieldStart, [], ⟨by decide, by decide⟩, by rw [ne.1.2]; rfl, nil _⟩
        · exact absurd ne.1.2 hs'
      · exact ⟨.bare, l ++ s ++ r, ⟨by decide, by decide⟩, trim_pad left hs right,
          Reads.plain open_ ne all⟩
  | quoted =>
      refine ⟨.quoteSeen, s, ⟨by decide, by decide⟩, ?_, ?_⟩
      · have := trim_pad (l := []) (r := []) nofun hs nofun
        simpa using this
      · exact (cons (openingQuote (hm.symm.imp And.left id)) doubled).append closingQuote

/-- The fields of a record are read one by one, with white space around them. -/
theorem fields (m : Mode) {r : List (List Char)} {w : List Char} (hw : WrittenFields r w)
    (hr : ∀ s ∈ r, Text.Trimmed Text.isBlank s)
    (hm : m = .fieldStart ∨ m = .recordStart ∧ r.head? ≠ some []) :
    ∃ m' t ts, m'.Closing ∧ (ts ++ [t]).map Text.trim = r ∧
      Reads ⟨m, [], fs, rs⟩ w ⟨m', t, fs ++ ts, rs⟩ := by
  induction hw generalizing m fs with
  | @last s w hf =>
      have start : m = .fieldStart ∨ m = .recordStart ∧ s ≠ [] :=
        hm.imp_right fun ⟨h, ne⟩ => ⟨h, fun e => ne (by rw [e]; rfl)⟩
      obtain ⟨m', t, closing, trim, reads⟩ := field fs rs hf (hr _ (by simp)) start
      exact ⟨m', t, [], closing, by simp [trim], by simpa using reads⟩
  | @cons s w ws ss hf _ ih =>
      have start : m = .fieldStart ∨ m = .recordStart ∧ s ≠ [] :=
        hm.imp_right fun ⟨h, ne⟩ => ⟨h, fun e => ne (by rw [e]; rfl)⟩
      obtain ⟨m₁, t, closing, trim, reads⟩ := field fs rs hf (hr s (by simp)) start
      obtain ⟨m₂, t', ts, closing', trims, reads'⟩ :=
        ih (fs ++ [t]) .fieldStart (fun s' h => hr s' (by simp [h])) (.inl rfl)
      refine ⟨m₂, t', t :: ts, closing', ?_, ?_⟩
      · simp only [List.cons_append, List.map_cons, trim, trims]
      · rw [List.append_assoc] at reads'
        exact reads.append (cons (comma closing.1) reads')

theorem record {r : List (List Char)} {w : List Char} (hw : WrittenFields r w) (hr : Legible r) :
    ∃ m t ts, m.Closing ∧ (ts ++ [t]).map Text.trim = r ∧
      Reads ⟨.recordStart, [], [], rs⟩ w ⟨m, t, ts, rs⟩ :=
  fields [] rs .recordStart hw hr.2 (.inr ⟨rfl, hr.1⟩)

/-- All records of a written text are read, and each is told from the next by its line end. -/
theorem records {r : List (List (List Char))} {w : List Char} (hw : WrittenRecords r w)
    (hr : ∀ s ∈ r, Legible s) :
    ∃ v ts, v.finished = rs ++ ts ∧ ts.map (List.map Text.trim) = r ∧
      Reads ⟨.recordStart, [], [], rs⟩ w v := by
  induction hw generalizing rs with
  | @last r w e written ends =>
      obtain ⟨m, t, ts, closing, trims, reads⟩ := record rs written (hr r (by simp))
      by_cases ne : e = []
      · exact ⟨_, [ts ++ [t]], View.finished_of_closing closing, by simp [trims],
          by simpa [ne] using reads⟩
      · exact ⟨_, [ts ++ [t]], rfl, by simp [trims], reads.append (ended closing ends ne)⟩
  | @cons r rs' w e ws written ends ne _ ih =>
      obtain ⟨m, t, ts, closing, trims, reads⟩ := record rs written (hr r (by simp))
      obtain ⟨v, ts', finished, trims', reads'⟩ :=
        ih (rs ++ [ts ++ [t]]) fun s hs => hr s (by simp [hs])
      refine ⟨v, (ts ++ [t]) :: ts', ?_, ?_, (reads.append (ended closing ends ne)).append reads'⟩
      · rw [finished, List.append_assoc]
        rfl
      · rw [List.map_cons, trims, trims']

theorem headerChar {c : Char} (hm : m ≠ .quoted) (quote : c ≠ '"')
    (ends : isLineEndChar c = false) :
    ∃ m' f' fs', m'.Closing ∧ Reads ⟨m, f, fs, rs⟩ [c] ⟨m', f', fs', rs⟩ := by
  by_cases hc : c = ','
  · subst hc
    exact ⟨.fieldStart, [], fs ++ [f], ⟨by decide, by decide⟩, comma hm⟩
  · have plain : needsQuotes c = false := by
      simp only [isLineEndChar, Bool.or_eq_false_iff] at ends
      simp [needsQuotes, hc, quote, ends.1, ends.2]
    have onward : m.onward.Closing := by
      cases m with
      | quoted => exact absurd rfl hm
      | _ => exact ⟨by decide, by decide⟩
    exact ⟨m.onward, f ++ [c], fs, onward, other (.inl plain)⟩

/-- A header line is one record, whatever stands in it. -/
theorem header {h : List Char} (hm : m ≠ .quoted) (begun : m = .recordStart → h ≠ [])
    (plain : ∀ c ∈ h, c ≠ '"' ∧ isLineEndChar c = false) :
    ∃ m' f' fs', m'.Closing ∧ Reads ⟨m, f, fs, rs⟩ h ⟨m', f', fs', rs⟩ := by
  induction h generalizing m f fs with
  | nil => exact ⟨m, f, fs, ⟨hm, fun e => begun e rfl⟩, nil _⟩
  | cons c h ih =>
      obtain ⟨quote, ends⟩ := plain c (by simp)
      obtain ⟨m₁, f₁, fs₁, closing, reads⟩ :=
        headerChar f fs rs hm quote ends
      obtain ⟨m₂, f₂, fs₂, closing', reads'⟩ :=
        ih f₁ fs₁ closing.1 (fun e => absurd e closing.2) fun d hd => plain d (by simp [hd])
      exact ⟨m₂, f₂, fs₂, closing', cons reads reads'⟩

end Reads

theorem shows_begin (here : Position) : (State.begin here).Shows ⟨.recordStart, [], [], []⟩ :=
  ⟨rfl, rfl, rfl, rfl⟩

theorem rows_marked {t : List Char} {v : View} (reads : Reads ⟨.recordStart, [], [], []⟩ t v) :
    (rows (byteOrderMark ++ Utf8.encode t)).map Row.fields =
      v.finished.map (List.map Utf8.encode) := by
  have mark : byteOrderMark.isPrefixOf (byteOrderMark ++ Utf8.encode t) := by simp
  rw [rows, if_pos mark, List.drop_left]
  exact (reads _ (shows_begin _)).finish

theorem not_begins_mark {t : List Char} (start : t.head? ≠ some '\uFEFF') :
    ¬ byteOrderMark.isPrefixOf (Utf8.encode t) := by
  intro h
  obtain ⟨rest, e⟩ := List.isPrefixOf_iff_prefix.1 h
  have byte : byteOrderMark = String.utf8EncodeChar '\uFEFF' := by decide
  have split := Utf8.split_encode t
  rw [← e, byte, Utf8.split_encodeChar, Utf8.push, Prod.mk.injEq] at split
  exact start (by rw [← split.1]; rfl)

theorem rows_unmarked {t : List Char} {v : View} (start : t.head? ≠ some '\uFEFF')
    (reads : Reads ⟨.recordStart, [], [], []⟩ t v) :
    (rows (Utf8.encode t)).map Row.fields = v.finished.map (List.map Utf8.encode) := by
  rw [rows, if_neg (not_begins_mark start)]
  exact (reads _ (shows_begin _)).finish

end Csv
end CreditRating

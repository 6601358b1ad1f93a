import CreditRating.Csv
import CreditRating.Proofs.Text.Utf8

/-!
What the reader makes of a text. Positions aside, the text read so far shows as
a mode, the text of the field that is being read, the texts of the finished
fields and the finished records. What a longer text does follows from its parts.
-/

namespace CreditRating
namespace Csv

structure View where
  mode : Mode
  field : List Char
  fields : List (List Char)
  rows : List (List (List Char))

structure State.Shows (s : State) (v : View) : Prop where
  mode_eq : s.mode = v.mode
  field_eq : s.field = (Utf8.encode v.field).reverse
  fields_eq : s.fields = (v.fields.map Utf8.encode).reverse
  rows_eq : s.rows.map Row.fields = (v.rows.map (List.map Utf8.encode)).reverse

theorem State.Shows.endField {s : State} {v : View} (h : s.Shows v) :
    s.endField.Shows ⟨.fieldStart, [], v.fields ++ [v.field], v.rows⟩ := by
  refine ⟨rfl, rfl, ?_, h.rows_eq⟩
  simp [State.endField, h.field_eq, h.fields_eq]

theorem State.Shows.endRecord {s : State} {v : View} (h : s.Shows v) :
    s.endRecord.Shows ⟨.recordStart, [], [], v.rows ++ [v.fields ++ [v.field]]⟩ := by
  refine ⟨rfl, rfl, rfl, ?_⟩
  simp [State.endRecord, h.field_eq, h.fields_eq, h.rows_eq]

/-- The text takes the reader from what shows first to what shows last. -/
def Reads (v : View) (t : List Char) (w : View) : Prop :=
  ∀ s : State, s.Shows v → (s.run (Utf8.encode t)).Shows w

theorem State.run_append (s : State) (as bs : List UInt8) :
    s.run (as ++ bs) = (s.run as).run bs :=
  List.foldl_append

namespace Reads

variable {u v w : View} {s t : List Char}

theorem nil (v : View) : Reads v [] v :=
  fun _ h => h

theorem append (h : Reads u s v) (h' : Reads v t w) : Reads u (s ++ t) w := by
  intro st shows
  rw [Utf8.encode_append, State.run_append]
  exact h' _ (h st shows)

theorem cons {c : Char} (h : Reads u [c] v) (h' : Reads v t w) : Reads u (c :: t) w :=
  h.append h'

end Reads

def isSpecial (b : UInt8) : Bool :=
  b == comma || b == quote || isLineEnd b

def Mode.onward : Mode → Mode
  | .quoted => .quoted
  | _ => .bare

/-- A byte without a special meaning is kept, and the field goes on. -/
theorem step_other {s : State} {b : UInt8}
    (h : isSpecial b = false ∨ (s.mode = .quoted ∧ (b == quote) = false)) :
    (s.step b).mode = s.mode.onward ∧ (s.step b).field = b :: s.field ∧
      (s.step b).fields = s.fields ∧ (s.step b).rows = s.rows := by
  cases h with
  | inl h =>
      simp only [isSpecial, Bool.or_eq_false_iff] at h
      obtain ⟨⟨hc, hq⟩, hl⟩ := h
      cases hm : s.mode <;>
        simp [State.step, State.meet, State.openingByte, State.plainByte, State.push, Mode.onward,
          hm, hc, hq, hl]
  | inr h => simp [State.step, State.meet, State.push, Mode.onward, h.1, h.2]

/-- All bytes of a character are kept alike. -/
theorem run_other {s : State} {bs : List UInt8} (ne : bs ≠ [])
    (h : ∀ b ∈ bs, isSpecial b = false ∨ (s.mode = .quoted ∧ (b == quote) = false)) :
    (s.run bs).mode = s.mode.onward ∧ (s.run bs).field = bs.reverse ++ s.field ∧
      (s.run bs).fields = s.fields ∧ (s.run bs).rows = s.rows := by
  induction bs generalizing s with
  | nil => exact absurd rfl ne
  | cons b bs ih =>
      obtain ⟨mode, field, fields, rows⟩ := step_other (h b (by simp))
      change ((s.step b).run bs).mode = _ ∧ ((s.step b).run bs).field = _ ∧
        ((s.step b).run bs).fields = _ ∧ ((s.step b).run bs).rows = _
      cases bs with
      | nil => exact ⟨mode, field, fields, rows⟩
      | cons b' bs =>
          have next : ∀ a ∈ b' :: bs, isSpecial a = false ∨
              ((s.step b).mode = .quoted ∧ (a == quote) = false) := by
            intro a ha
            refine (h a (by simp [ha])).imp_right fun ⟨quoted, hq⟩ => ⟨?_, hq⟩
            rw [mode, quoted]
            rfl
          obtain ⟨mode', field', fields', rows'⟩ := ih (by simp) next
          refine ⟨?_, ?_, fields'.trans fields, rows'.trans rows⟩
          · rw [mode', mode]
            cases s.mode <;> rfl
          · rw [field', field]
            simp

theorem ofNat_beq {c : Char} (hc : c.toNat < 0x80) (d : Char) (hd : d.toNat < 0x80) :
    (UInt8.ofNat c.toNat == UInt8.ofNat d.toNat) = (c == d) := by
  rw [Bool.eq_iff_iff, beq_iff_eq, beq_iff_eq]
  refine ⟨fun h => ?_, fun h => by rw [h]⟩
  have h := congrArg UInt8.toNat h
  rw [Utf8.toNat_ofNat (by omega), Utf8.toNat_ofNat (by omega)] at h
  exact Char.toNat_inj.1 h

theorem isSpecial_ofNat {c : Char} (h : c.toNat < 0x80) :
    isSpecial (UInt8.ofNat c.toNat) = needsQuotes c := by
  have hc : (UInt8.ofNat c.toNat == comma) = (c == ',') := ofNat_beq h ',' (by decide)
  have hq : (UInt8.ofNat c.toNat == quote) = (c == '"') := ofNat_beq h '"' (by decide)
  have hf : (UInt8.ofNat c.toNat == lineFeed) = (c == '\n') := ofNat_beq h '\n' (by decide)
  have hr : (UInt8.ofNat c.toNat == carriageReturn) = (c == '\r') := ofNat_beq h '\r' (by decide)
  rw [isSpecial, isLineEnd, hc, hq, hf, hr, needsQuotes, Bool.or_comm (c == '\n'), Bool.or_assoc,
    Bool.or_assoc, Bool.or_assoc]

theorem isSpecial_high {b : UInt8} (h : 0x80 ≤ b.toNat) : isSpecial b = false := by
  simp only [isSpecial, isLineEnd, Bool.or_eq_false_iff, beq_eq_false_iff_ne]
  refine ⟨⟨?_, ?_⟩, ?_, ?_⟩ <;> rintro rfl <;> exact absurd h (by decide)

theorem meet_comma {s : State} (h : s.mode ≠ .quoted) : s.meet comma = s.endField := by
  cases hm : s.mode with
  | quoted => exact absurd hm h
  | _ => simp [State.meet, State.openingByte, State.plainByte, hm, isLineEnd, comma, quote,
      lineFeed, carriageReturn]

theorem meet_lineEnd {s : State} {b : UInt8} (hb : isLineEnd b) (quoted : s.mode ≠ .quoted)
    (begun : s.mode ≠ .recordStart) : s.meet b = s.endRecord := by
  have other : (b == comma) = false ∧ (b == quote) = false := by
    simp only [isLineEnd, Bool.or_eq_true, beq_iff_eq] at hb
    cases hb with
    | inl hb => exact hb ▸ by decide
    | inr hb => exact hb ▸ by decide
  cases hm : s.mode with
  | quoted => exact absurd hm quoted
  | recordStart => exact absurd hm begun
  | _ => simp [State.meet, State.openingByte, State.plainByte, hm, hb, other.1, other.2]

theorem meet_lineEnd_between {s : State} {b : UInt8} (hb : isLineEnd b)
    (h : s.mode = .recordStart) : s.meet b = s := by
  simp [State.meet, h, hb]

theorem meet_quote_start {s : State} (h : s.mode = .recordStart ∨ s.mode = .fieldStart) :
    s.meet quote = { s with mode := .quoted } := by
  have inside : isLineEnd quote = false := by decide
  cases h with
  | inl h => simp [State.meet, State.openingByte, h, inside]
  | inr h => simp [State.meet, State.openingByte, h]

theorem meet_quote_quoted {s : State} (h : s.mode = .quoted) :
    s.meet quote = { s with mode := .quoteSeen } := by
  simp [State.meet, h]

theorem meet_quote_seen {s : State} (h : s.mode = .quoteSeen) :
    s.meet quote = s.push .quoted quote := by
  simp [State.meet, h]

def isLineEndChar (c : Char) : Bool :=
  c == '\n' || c == '\r'

theorem encode_lineEnd {c : Char} (h : isLineEndChar c) :
    ∃ b, isLineEnd b ∧ Utf8.encode [c] = [b] := by
  simp only [isLineEndChar, Bool.or_eq_true, beq_iff_eq] at h
  cases h with
  | inl h => exact h ▸ ⟨lineFeed, by decide, by decide⟩
  | inr h => exact h ▸ ⟨carriageReturn, by decide, by decide⟩

namespace Reads

variable {m : Mode} {f : List Char} {fs : List (List Char)} {rs : List (List (List Char))}

/-- A character without a special meaning is kept as it is. -/
theorem other {c : Char} (h : needsQuotes c = false ∨ (m = .quoted ∧ c ≠ '"')) :
    Reads ⟨m, f, fs, rs⟩ [c] ⟨m.onward, f ++ [c], fs, rs⟩ := by
  intro s shows
  have bytes : ∀ b ∈ String.utf8EncodeChar c,
      isSpecial b = false ∨ (s.mode = .quoted ∧ (b == quote) = false) := by
    intro b hb
    by_cases low : c.toNat < 0x80
    · rw [Utf8.encodeChar_ascii low, List.mem_singleton] at hb
      subst hb
      rw [isSpecial_ofNat low, shows.mode_eq]
      refine h.imp_right fun ⟨quoted, hq⟩ => ⟨quoted, ?_⟩
      exact (ofNat_beq low '"' (by decide)).trans (beq_eq_false_iff_ne.2 hq)
    · exact .inl (isSpecial_high (Utf8.high_of_mem_encodeChar (by omega) hb))
  have ne : String.utf8EncodeChar c ≠ [] := String.utf8EncodeChar_ne_nil
  obtain ⟨mode, field, fields, rows⟩ := run_other ne bytes
  rw [Utf8.encode_cons, Utf8.encode_nil, List.append_nil]
  refine ⟨?_, ?_, fields.trans shows.fields_eq, ?_⟩
  · rw [mode, shows.mode_eq]
  · rw [field, shows.field_eq]
    simp
  · rw [rows, shows.rows_eq]

theorem of_meet {v w : View} {c : Char} {b : UInt8} (byte : Utf8.encode [c] = [b])
    (h : ∀ s : State, s.Shows v → (s.meet b).Shows w) : Reads v [c] w := by
  intro s shows
  rw [byte]
  exact h _ ⟨shows.mode_eq, shows.field_eq, shows.fields_eq, shows.rows_eq⟩

theorem comma (h : m ≠ .quoted) :
    Reads ⟨m, f, fs, rs⟩ [','] ⟨.fieldStart, [], fs ++ [f], rs⟩ := by
  refine of_meet (b := Csv.comma) (by decide) ?_
  intro s shows
  rw [meet_comma (shows.mode_eq ▸ h)]
  exact shows.endField

theorem lineEnd {c : Char} (hc : isLineEndChar c) (quoted : m ≠ .quoted)
    (begun : m ≠ .recordStart) :
    Reads ⟨m, f, fs, rs⟩ [c] ⟨.recordStart, [], [], rs ++ [fs ++ [f]]⟩ := by
  obtain ⟨b, hb, byte⟩ := encode_lineEnd hc
  refine of_meet byte ?_
  intro s shows
  rw [meet_lineEnd hb (shows.mode_eq ▸ quoted) (shows.mode_eq ▸ begun)]
  exact shows.endRecord

theorem lineEnd_between {c : Char} (hc : isLineEndChar c) :
    Reads ⟨.recordStart, f, fs, rs⟩ [c] ⟨.recordStart, f, fs, rs⟩ := by
  obtain ⟨b, hb, byte⟩ := encode_lineEnd hc
  refine of_meet byte ?_
  intro s shows
  rw [meet_lineEnd_between hb shows.mode_eq]
  exact shows

theorem openingQuote (h : m = .recordStart ∨ m = .fieldStart) :
    Reads ⟨m, f, fs, rs⟩ ['"'] ⟨.quoted, f, fs, rs⟩ := by
  refine of_meet (b := quote) (by decide) ?_
  intro s shows
  rw [meet_quote_start (shows.mode_eq ▸ h)]
  exact ⟨rfl, shows.field_eq, shows.fields_eq, shows.rows_eq⟩

theorem closingQuote : Reads ⟨.quoted, f, fs, rs⟩ ['"'] ⟨.quoteSeen, f, fs, rs⟩ := by
  refine of_meet (b := quote) (by decide) ?_
  intro s shows
  rw [meet_quote_quoted shows.mode_eq]
  exact ⟨rfl, shows.field_eq, shows.fields_eq, shows.rows_eq⟩

theorem secondQuote : Reads ⟨.quoteSeen, f, fs, rs⟩ ['"'] ⟨.quoted, f ++ ['"'], fs, rs⟩ := by
  refine of_meet (b := quote) (by decide) ?_
  intro s shows
  have byte : Utf8.encode ['"'] = [quote] := by decide
  rw [meet_quote_seen shows.mode_eq]
  refine ⟨rfl, ?_, shows.fields_eq, shows.rows_eq⟩
  simp [State.push, shows.field_eq, byte, -Utf8.encode_cons]

end Reads

end Csv
end CreditRating

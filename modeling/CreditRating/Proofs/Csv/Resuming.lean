import CreditRating.Proofs.Csv.Reading
import Mathlib.Data.List.Induction

/-!
A text read in two parts. The reader resumes where the first part leaves it, and
after a line that is at its end nothing of the first part is left to matter: what
follows is read into the same fields below any such text.
-/

namespace CreditRating
namespace Csv

namespace State

def after (bs : List UInt8) : State :=
  if byteOrderMark.isPrefixOf bs then
    (begin ⟨0, 0, byteOrderMark.length⟩).run (bs.drop byteOrderMark.length)
  else (begin .origin).run bs

end State

theorem rows_eq (bs : List UInt8) : rows bs = (State.after bs).finish := by
  rw [rows, State.after]
  split <;> rfl

namespace State

/-- Only a text that breaks off inside the mark can be completed to the mark. -/
theorem exists_of_begins_mark {as bs : List UInt8} (h : byteOrderMark <+: as ++ bs)
    (h' : ¬ byteOrderMark <+: as) :
    ∃ b us ts, bs = b :: us ++ ts ∧ byteOrderMark = as ++ b :: us := by
  obtain ⟨ts, ht⟩ := h
  obtain ⟨us, hu, -⟩ | ⟨us, hu, hb⟩ := List.append_eq_append_iff.1 ht
  · exact absurd ⟨us, hu.symm⟩ h'
  · cases us with
    | nil => exact absurd ⟨[], by simp [hu]⟩ h'
    | cons b us => exact ⟨b, us, ts, hb, hu⟩

theorem after_append {as bs : List UInt8}
    (h : byteOrderMark <+: as ++ bs → byteOrderMark <+: as) :
    after (as ++ bs) = (after as).run bs := by
  by_cases marked : byteOrderMark <+: as
  · obtain ⟨t, rfl⟩ := marked
    rw [after, after, if_pos (by simp), if_pos (by simp), List.append_assoc, List.drop_left,
      List.drop_left, run_append]
  · rw [after, after, if_neg (mt List.isPrefixOf_iff_prefix.1 (mt h marked)),
      if_neg (mt List.isPrefixOf_iff_prefix.1 marked), run_append]

/-- Induction along a text, in which the mark counts as one with what is before the first byte. -/
theorem after_induction {P : List UInt8 → Prop} (empty : P []) (mark : P byteOrderMark)
    (step : ∀ bs b, after (bs ++ [b]) = (after bs).step b → P bs → P (bs ++ [b]))
    (bs : List UInt8) : P bs := by
  induction bs using List.reverseRecOn with
  | nil => exact empty
  | append_singleton bs b ih =>
      by_cases h : byteOrderMark <+: bs ++ [b] → byteOrderMark <+: bs
      · exact step bs b (after_append h) ih
      · rw [Classical.not_imp] at h
        obtain ⟨c, us, ts, one, whole⟩ := exists_of_begins_mark h.1 h.2
        simp only [List.cons_append, List.cons.injEq, List.nil_eq, List.append_eq_nil_iff] at one
        obtain ⟨rfl, rfl, rfl⟩ := one
        rw [← whole]
        exact mark

/-- The state with the byte counted, before its meaning is looked at. -/
def moved (s : State) (b : UInt8) : State :=
  { s with here :=
    { s.here with
      feeds := s.here.feeds + (if b == lineFeed then 1 else 0)
      bytes := s.here.bytes + 1 } }

theorem step_eq (s : State) (b : UInt8) : s.step b = (s.moved b).meet b := rfl

/-- The second state is inside the record that the first is in or before. -/
structure Within (s t : State) : Prop where
  mode_ne : t.mode ≠ .recordStart
  start_eq : t.start = s.start
  here_eq : t.here = s.here
  rows_eq : t.rows = s.rows

theorem within_push (s : State) {m : Mode} (hm : m ≠ .recordStart) (b : UInt8) :
    Within s (s.push m b) :=
  ⟨hm, rfl, rfl, rfl⟩

theorem within_plainByte (s : State) {b : UInt8} (h : isLineEnd b = false) :
    Within s (s.plainByte b) := by
  simp only [plainByte, h]
  split
  · exact ⟨by simp [endField], rfl, rfl, rfl⟩
  · exact s.within_push (m := .bare) (by decide) b

theorem within_openingByte (s : State) {b : UInt8} (h : isLineEnd b = false) :
    Within s (s.openingByte b) := by
  simp only [openingByte]
  split
  · exact ⟨by simp, rfl, rfl, rfl⟩
  · exact s.within_plainByte h

theorem within_meet (s : State) {b : UInt8} (h : s.mode = .quoted ∨ isLineEnd b = false) :
    Within s (s.meet b) := by
  rw [meet]
  cases hm : s.mode with
  | quoted =>
      dsimp only
      split
      · exact ⟨by simp, rfl, rfl, rfl⟩
      · exact s.within_push (m := .quoted) (by decide) b
  | recordStart =>
      have plain : isLineEnd b = false := h.resolve_left (by simp [hm])
      simp only [plain]
      exact s.within_openingByte plain
  | fieldStart => exact s.within_openingByte (h.resolve_left (by simp [hm]))
  | bare => exact s.within_plainByte (h.resolve_left (by simp [hm]))
  | quoteSeen =>
      dsimp only
      split
      · exact s.within_push (m := .quoted) (by decide) b
      · exact s.within_plainByte (h.resolve_left (by simp [hm]))

/-- A byte leaves the reader between two records, keeps it in a record or takes it there,
or ends the record. -/
theorem step_cases (s : State) (b : UInt8) :
    (s.mode = .recordStart ∧ isLineEnd b ∧ s.step b = s.moved b) ∨
    ((s.mode = .quoted ∨ isLineEnd b = false) ∧ Within (s.moved b) (s.step b)) ∨
    (s.mode ≠ .recordStart ∧ isLineEnd b ∧ s.step b = (s.moved b).endRecord) := by
  rw [step_eq]
  by_cases inside : s.mode = .quoted ∨ isLineEnd b = false
  · exact .inr (.inl ⟨inside, (s.moved b).within_meet inside⟩)
  · rw [not_or, Bool.not_eq_false] at inside
    obtain ⟨quoted, ends⟩ := inside
    by_cases hm : s.mode = .recordStart
    · exact .inl ⟨hm, ends, meet_lineEnd_between ends hm⟩
    · exact .inr (.inr ⟨hm, ends, meet_lineEnd ends quoted hm⟩)

def Idle (s : State) : Prop :=
  s.mode = .recordStart → s.field = [] ∧ s.fields = []

theorem Idle.step {s : State} (h : s.Idle) (b : UInt8) : (s.step b).Idle := by
  intro hm
  obtain ⟨mode, -, step⟩ | ⟨-, within⟩ | ⟨-, -, step⟩ := s.step_cases b
  · rw [step]
    exact h mode
  · exact absurd hm within.mode_ne
  · rw [step]
    exact ⟨rfl, rfl⟩

theorem idle_after (bs : List UInt8) : (after bs).Idle := by
  refine after_induction (P := fun bs => (after bs).Idle) ?_ ?_ ?_ bs
  · exact fun _ => ⟨rfl, rfl⟩
  · exact fun _ => ⟨rfl, rfl⟩
  · intro bs b step idle
    rw [step]
    exact idle.step b

structure Alike (rs rs' : List Row) (s t : State) : Prop where
  mode_eq : s.mode = t.mode
  field_eq : s.field = t.field
  fields_eq : s.fields = t.fields
  rows_eq : ∃ l l', s.rows = l ++ rs ∧ t.rows = l' ++ rs' ∧ l.map Row.fields = l'.map Row.fields

namespace Alike

variable {rs rs' : List Row} {s t : State}

theorem push (h : Alike rs rs' s t) (m : Mode) (b : UInt8) :
    Alike rs rs' (s.push m b) (t.push m b) :=
  ⟨rfl, congrArg (b :: ·) h.field_eq, h.fields_eq, h.rows_eq⟩

theorem setMode (h : Alike rs rs' s t) (m : Mode) :
    Alike rs rs' { s with mode := m } { t with mode := m } :=
  ⟨rfl, h.field_eq, h.fields_eq, h.rows_eq⟩

theorem endField (h : Alike rs rs' s t) : Alike rs rs' s.endField t.endField := by
  refine ⟨rfl, rfl, ?_, h.rows_eq⟩
  simp only [State.endField, h.field_eq, h.fields_eq]

theorem endRecord (h : Alike rs rs' s t) : Alike rs rs' s.endRecord t.endRecord := by
  obtain ⟨l, l', hl, hl', same⟩ := h.rows_eq
  refine ⟨rfl, rfl, rfl, ⟨s.start, (s.field.reverse :: s.fields).reverse⟩ :: l,
    ⟨t.start, (t.field.reverse :: t.fields).reverse⟩ :: l', ?_, ?_, ?_⟩
  · simp [State.endRecord, hl]
  · simp [State.endRecord, hl']
  · simp [same, h.field_eq, h.fields_eq]

theorem plainByte (h : Alike rs rs' s t) (b : UInt8) :
    Alike rs rs' (s.plainByte b) (t.plainByte b) := by
  simp only [State.plainByte]
  split
  · exact h.endField
  · split
    · exact h.endRecord
    · exact h.push .bare b

theorem openingByte (h : Alike rs rs' s t) (b : UInt8) :
    Alike rs rs' (s.openingByte b) (t.openingByte b) := by
  simp only [State.openingByte]
  split
  · exact h.setMode .quoted
  · exact h.plainByte b

/-- States that differ in their positions go on alike. -/
theorem step (h : Alike rs rs' s t) (b : UInt8) : Alike rs rs' (s.step b) (t.step b) := by
  have moved : Alike rs rs' (s.moved b) (t.moved b) :=
    ⟨h.mode_eq, h.field_eq, h.fields_eq, h.rows_eq⟩
  have mode : (s.moved b).mode = (t.moved b).mode := h.mode_eq
  rw [step_eq, step_eq, meet, meet, mode]
  cases (t.moved b).mode with
  | recordStart =>
      dsimp only
      split
      · exact moved
      · exact moved.openingByte b
  | fieldStart => exact moved.openingByte b
  | bare => exact moved.plainByte b
  | quoted =>
      dsimp only
      split
      · exact moved.setMode .quoteSeen
      · exact moved.push .quoted b
  | quoteSeen =>
      dsimp only
      split
      · exact moved.push .quoted b
      · exact moved.plainByte b

theorem run (h : Alike rs rs' s t) (bs : List UInt8) : Alike rs rs' (s.run bs) (t.run bs) := by
  induction bs generalizing s t with
  | nil => exact h
  | cons b bs ih => exact ih (h.step b)

/-- The records to come have the same fields. -/
theorem finish (h : Alike rs rs' s t) :
    ∃ l l', s.finish = rs.reverse ++ l ∧ t.finish = rs'.reverse ++ l' ∧
      l.map Row.fields = l'.map Row.fields := by
  have reversed {s t : State} (h : Alike rs rs' s t) :
      ∃ l l', s.rows.reverse = rs.reverse ++ l ∧ t.rows.reverse = rs'.reverse ++ l' ∧
        l.map Row.fields = l'.map Row.fields := by
    obtain ⟨l, l', hl, hl', same⟩ := h.rows_eq
    exact ⟨l.reverse, l'.reverse, by simp [hl], by simp [hl'], by simp [same]⟩
  have mode := h.mode_eq
  cases hm : t.mode with
  | recordStart => simpa only [State.finish, mode, hm] using reversed h
  | fieldStart | bare | quoted | quoteSeen =>
      simpa only [State.finish, mode, hm] using reversed h.endRecord

end Alike

end State

/-- The text ends with a line feed that is not inside quotes. -/
def EndsLine (as : List UInt8) : Prop :=
  ∃ bs, as = bs ++ [lineFeed] ∧ (State.after bs).mode ≠ .quoted

/-- No line feed completes the mark, and none is in it. -/
theorem begins_mark_of_lineFeed {as bs : List UInt8}
    (h : lineFeed ∈ as ∨ bs.head? = some lineFeed) (marked : byteOrderMark <+: as ++ bs) :
    byteOrderMark <+: as := by
  by_contra inside
  obtain ⟨b, us, ts, rfl, mark⟩ := State.exists_of_begins_mark marked inside
  have plain : lineFeed ∉ byteOrderMark := by decide
  apply plain
  rw [mark]
  obtain h | h := h
  · exact List.mem_append_left _ h
  · simp [Option.some.inj h]

namespace EndsLine

variable {as as' : List UInt8}

theorem after_append (h : EndsLine as) (bs : List UInt8) :
    State.after (as ++ bs) = (State.after as).run bs := by
  obtain ⟨cs, rfl, -⟩ := h
  exact State.after_append (begins_mark_of_lineFeed (.inl (by simp)))

theorem mode_after (h : EndsLine as) : (State.after as).mode = .recordStart := by
  obtain ⟨bs, rfl, quoted⟩ := h
  have ends : isLineEnd lineFeed := by decide
  rw [State.after_append (begins_mark_of_lineFeed (.inr rfl)), State.run, List.foldl_cons,
    List.foldl_nil]
  obtain ⟨mode, -, step⟩ | ⟨inside, -⟩ | ⟨-, -, step⟩ := (State.after bs).step_cases lineFeed
  · rw [step]
    exact mode
  · rw [ends] at inside
    exact absurd inside (by simp [quoted])
  · rw [step]
    rfl

/-- Below any two such texts a third is read into the same fields. -/
theorem exists_rows_append (h : EndsLine as) (h' : EndsLine as') (bs : List UInt8) :
    ∃ rs rs', rows (as ++ bs) = rows as ++ rs ∧ rows (as' ++ bs) = rows as' ++ rs' ∧
      rs.map Row.fields = rs'.map Row.fields := by
  have idle := State.idle_after as h.mode_after
  have idle' := State.idle_after as' h'.mode_after
  have alike : State.Alike (State.after as).rows (State.after as').rows (State.after as)
      (State.after as') :=
    ⟨h.mode_after.trans h'.mode_after.symm, idle.1.trans idle'.1.symm, idle.2.trans idle'.2.symm,
      [], [], rfl, rfl, rfl⟩
  obtain ⟨l, l', hl, hl', same⟩ := (alike.run bs).finish
  have finished {as : List UInt8} (h : EndsLine as) : rows as = (State.after as).rows.reverse := by
    rw [rows_eq, State.finish, h.mode_after]
  refine ⟨l, l', ?_, ?_, same⟩
  · rw [rows_eq, h.after_append, hl, finished h]
  · rw [rows_eq, h'.after_append, hl', finished h']

end EndsLine

end Csv
end CreditRating

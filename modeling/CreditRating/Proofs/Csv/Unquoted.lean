import CreditRating.Proofs.Csv.Resuming

/-!
Texts without quotes. The reader is never inside quotes there, so a line end always ends the
record and no field holds one.
-/

namespace CreditRating
namespace Csv

def InLine (f : List UInt8) : Prop := ∀ b ∈ f, isLineEnd b = false

theorem InLine.reverse {f : List UInt8} (h : InLine f) : InLine f.reverse :=
  fun b hb => h b (List.mem_reverse.1 hb)

namespace State

/-- The reader has not met a quote, and all that it keeps stays within a line. -/
structure Unquoted (s : State) : Prop where
  mode : s.mode ≠ .quoted ∧ s.mode ≠ .quoteSeen
  field : InLine s.field
  fields : ∀ f ∈ s.fields, InLine f
  rows : ∀ r ∈ s.rows, ∀ f ∈ r.fields, InLine f

namespace Unquoted

theorem begin (here : Position) : Unquoted (begin here) :=
  ⟨by simp [State.begin], nofun, nofun, nofun⟩

variable {s : State} {b : UInt8}

theorem push (h : s.Unquoted) (plain : isLineEnd b = false) : (s.push .bare b).Unquoted :=
  ⟨by simp [State.push], List.forall_mem_cons.2 ⟨plain, h.field⟩, h.fields, h.rows⟩

theorem endField (h : s.Unquoted) : s.endField.Unquoted :=
  ⟨by simp [State.endField], nofun, List.forall_mem_cons.2 ⟨h.field.reverse, h.fields⟩, h.rows⟩

theorem endRecord (h : s.Unquoted) : s.endRecord.Unquoted := by
  refine ⟨by simp [State.endRecord], nofun, nofun, List.forall_mem_cons.2 ⟨?_, h.rows⟩⟩
  intro f hf
  exact List.forall_mem_cons.2 ⟨h.field.reverse, h.fields⟩ f (List.mem_reverse.1 hf)

theorem plainByte (h : s.Unquoted) (b : UInt8) : (s.plainByte b).Unquoted := by
  rw [State.plainByte]
  split
  · exact h.endField
  · split
    · exact h.endRecord
    · next plain => exact h.push (Bool.eq_false_iff.2 plain)

theorem openingByte (h : s.Unquoted) (hb : b ≠ quote) : (s.openingByte b).Unquoted := by
  rw [State.openingByte, if_neg (by simpa using hb)]
  exact h.plainByte b

theorem step (h : s.Unquoted) (hb : b ≠ quote) : (s.step b).Unquoted := by
  have moved : (s.moved b).Unquoted := ⟨h.mode, h.field, h.fields, h.rows⟩
  rw [step_eq, meet]
  cases hm : (s.moved b).mode with
  | recordStart =>
      dsimp only
      split
      · exact moved
      · exact moved.openingByte hb
  | fieldStart => exact moved.openingByte hb
  | bare => exact moved.plainByte b
  | quoted => exact absurd hm moved.mode.1
  | quoteSeen => exact absurd hm moved.mode.2

theorem finish (h : s.Unquoted) : ∀ r ∈ s.finish, ∀ f ∈ r.fields, InLine f := by
  rw [State.finish]
  split
  · exact fun r hr => h.rows r (List.mem_reverse.1 hr)
  · exact fun r hr => h.endRecord.rows r (List.mem_reverse.1 hr)

end Unquoted

theorem unquoted_after (bs : List UInt8) : quote ∉ bs → (after bs).Unquoted := by
  refine after_induction (P := fun bs => quote ∉ bs → (after bs).Unquoted) ?_ ?_ ?_ bs
  · exact fun _ => .begin _
  · exact fun _ => .begin _
  · intro bs b step ih plain
    rw [List.mem_append, List.mem_singleton, not_or] at plain
    rw [step]
    exact (ih plain.1).step (Ne.symm plain.2)

end State

/-- Fields of a text without quotes have no line ends. -/
theorem inLine_of_mem_rows {bs : List UInt8} (plain : quote ∉ bs) :
    ∀ r ∈ rows bs, ∀ f ∈ r.fields, InLine f := by
  rw [rows_eq]
  exact (State.unquoted_after bs plain).finish

end Csv
end CreditRating

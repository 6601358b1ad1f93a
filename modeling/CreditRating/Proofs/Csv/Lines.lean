import CreditRating.Proofs.Csv.Resuming

/-!
The lines of a text, and where its records begin. The reader counts line feeds
only, and what it keeps for a record is the count at the end of the record before.
-/

namespace CreditRating
namespace Csv

/-- The line ends of a text. A carriage return before a line feed is one with it. -/
def lineEnds : List UInt8 → ℕ
  | [] => 0
  | b :: bs =>
      if b = lineFeed ∨ b = carriageReturn ∧ bs.head? ≠ some lineFeed then lineEnds bs + 1
      else lineEnds bs

def loneReturns : List UInt8 → ℕ
  | [] => 0
  | b :: bs =>
      if b = carriageReturn ∧ bs.head? ≠ some lineFeed then loneReturns bs + 1
      else loneReturns bs

theorem lineEnds_eq (bs : List UInt8) : lineEnds bs = bs.count lineFeed + loneReturns bs := by
  induction bs with
  | nil => rfl
  | cons b bs ih =>
      have differ : lineFeed ≠ carriageReturn := by decide
      rw [lineEnds, loneReturns, List.count_cons, ih]
      by_cases feed : b = lineFeed
      · simp [feed, differ]
        omega
      · by_cases lone : b = carriageReturn ∧ bs.head? ≠ some lineFeed
        · simp [lone, differ.symm]
          omega
        · simp [feed, lone]

/-- The text ends with the line end that closes a record, which makes so many records. -/
structure EndsRecord (above : List UInt8) (k : ℕ) : Prop where
  closed : ∃ as b, above = as ++ [b] ∧ (State.after as).mode ≠ .recordStart
  mode_eq : (State.after above).mode = .recordStart
  length_eq : (State.after above).rows.length = k

/-- After so many records and the line ends below them the next record begins. -/
structure Begins (bs : List UInt8) (k : ℕ) (above gap : List UInt8) : Prop where
  ended : EndsRecord above k
  blank : ∀ b ∈ gap, isLineEnd b
  begun : ∃ b rest, bs = above ++ gap ++ b :: rest ∧ isLineEnd b = false

theorem Begins.append {bs above gap : List UInt8} {k : ℕ} (h : Begins bs k above gap)
    (cs : List UInt8) : Begins (bs ++ cs) k above gap := by
  obtain ⟨b, rest, whole, plain⟩ := h.begun
  exact ⟨h.ended, h.blank, b, rest ++ cs, by simp [whole], plain⟩

/-- The position kept for a record counts the line feeds above the line ends before it. -/
def Placed (bs : List UInt8) (k : ℕ) (p : Position) : Prop :=
  ∃ above gap, Begins bs k above gap ∧ p.feeds = above.count lineFeed

theorem Placed.append {bs : List UInt8} {k : ℕ} {p : Position} (h : Placed bs k p)
    (cs : List UInt8) : Placed (bs ++ cs) k p := by
  obtain ⟨above, gap, begins, feeds⟩ := h
  exact ⟨above, gap, begins.append cs, feeds⟩

/-- The position kept for the next record, of which nothing has been read. -/
def Awaited (bs : List UInt8) (k : ℕ) (p : Position) : Prop :=
  ∃ above gap, EndsRecord above k ∧ (∀ b ∈ gap, isLineEnd b) ∧ bs = above ++ gap ∧
    p.feeds = above.count lineFeed

theorem Awaited.skip {bs : List UInt8} {k : ℕ} {p : Position} {b : UInt8} (h : Awaited bs k p)
    (ends : isLineEnd b) : Awaited (bs ++ [b]) k p := by
  obtain ⟨above, gap, ended, blank, rfl, feeds⟩ := h
  refine ⟨above, gap ++ [b], ended, ?_, List.append_assoc above gap [b], feeds⟩
  intro c hc
  obtain hc | hc := List.mem_append.1 hc
  · exact blank c hc
  · rw [List.mem_singleton.1 hc]
    exact ends

theorem Awaited.begin {bs : List UInt8} {k : ℕ} {p : Position} {b : UInt8} (h : Awaited bs k p)
    (plain : isLineEnd b = false) : Placed (bs ++ [b]) k p := by
  obtain ⟨above, gap, ended, blank, rfl, feeds⟩ := h
  exact ⟨above, gap, ⟨ended, blank, b, [], rfl, plain⟩, feeds⟩

namespace State

/-- Every record below the first is placed, the one that is being read too. -/
structure Tracked (bs : List UInt8) (s : State) : Prop where
  feeds_eq : s.here.feeds = bs.count lineFeed
  rows : ∀ k r, s.rows.reverse[k + 1]? = some r → Placed bs (k + 1) r.start
  between : s.mode = .recordStart → s.rows ≠ [] → Awaited bs s.rows.length s.start
  within : s.mode ≠ .recordStart → s.rows ≠ [] → Placed bs s.rows.length s.start

theorem moved_feeds (s : State) (bs : List UInt8) (b : UInt8)
    (h : s.here.feeds = bs.count lineFeed) :
    (s.moved b).here.feeds = (bs ++ [b]).count lineFeed := by
  rw [List.count_append, List.count_singleton, ← h]
  rfl

/-- When the record that is being read ends, it is placed like those before it. -/
theorem Tracked.placed_endRecord {bs : List UInt8} {s : State} (h : Tracked bs s)
    (mode : s.mode ≠ .recordStart) {k : ℕ} {r : Row}
    (hr : s.endRecord.rows.reverse[k + 1]? = some r) : Placed bs (k + 1) r.start := by
  rw [endRecord, List.reverse_cons, List.getElem?_append] at hr
  split at hr
  · exact h.rows k r hr
  · next last =>
      rw [List.length_reverse] at last hr
      cases beyond : k + 1 - s.rows.length with
      | succ i => simp [beyond] at hr
      | zero =>
          have length : s.rows.length = k + 1 := by omega
          have ne : s.rows ≠ [] := by
            intro none
            simp [none] at length
          rw [beyond] at hr
          cases hr
          rw [← length]
          exact h.within mode ne

/-- The positions are kept by every byte. -/
theorem tracked_after (bs : List UInt8) : Tracked bs (after bs) := by
  refine after_induction (P := fun bs => Tracked bs (after bs)) ?_ ?_ ?_ bs
  · exact ⟨rfl, nofun, fun _ ne => absurd rfl ne, fun _ ne => absurd rfl ne⟩
  · exact ⟨by decide, nofun, fun _ ne => absurd rfl ne, fun _ ne => absurd rfl ne⟩
  · intro bs b step h
    have feeds := (after bs).moved_feeds bs b h.feeds_eq
    obtain ⟨mode, ends, same⟩ | ⟨inside, within⟩ | ⟨mode, ends, ended⟩ := (after bs).step_cases b
    · rw [step, same]
      exact ⟨feeds, fun k r hr => (h.rows k r hr).append [b],
        fun _ ne => (h.between mode ne).skip ends, fun other _ => absurd mode other⟩
    · rw [step]
      have rows := within.rows_eq
      refine ⟨?_, ?_, fun mode _ => absurd mode within.mode_ne, ?_⟩
      · rw [within.here_eq]
        exact feeds
      · intro k r hr
        rw [rows] at hr
        exact (h.rows k r hr).append [b]
      · intro _ ne
        rw [rows] at ne ⊢
        rw [within.start_eq]
        by_cases mode : (after bs).mode = .recordStart
        · exact (h.between mode ne).begin (inside.resolve_left (by simp [mode]))
        · exact (h.within mode ne).append [b]
    · have ending : EndsRecord (bs ++ [b]) ((after bs).rows.length + 1) :=
        ⟨⟨bs, b, rfl, mode⟩, by rw [step, ended]; rfl, by rw [step, ended]; rfl⟩
      rw [step, ended]
      refine ⟨feeds, ?_, ?_, fun other _ => absurd rfl other⟩
      · intro k r hr
        exact (h.placed_endRecord mode hr).append [b]
      · intro _ _
        exact ⟨bs ++ [b], [], ending, nofun, (List.append_nil _).symm, feeds⟩

end State

/-- The position of a record is the number of line feeds above the line ends before it. -/
theorem placed_of_getElem?_rows {bs : List UInt8} {k : ℕ} {r : Row}
    (h : (rows bs)[k + 1]? = some r) : Placed bs (k + 1) r.start := by
  have tracked := State.tracked_after bs
  rw [rows_eq, State.finish] at h
  split at h
  · exact tracked.rows k r h
  · next mode => exact tracked.placed_endRecord mode h

end Csv
end CreditRating

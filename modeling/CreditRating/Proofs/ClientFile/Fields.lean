import CreditRating.ClientFile
import CreditRating.Proofs.Decimal.Numerals
import CreditRating.Proofs.Decimal.ReadBack
import CreditRating.Proofs.Text.Trim
import CreditRating.Proofs.Text.Utf8

/-!
The fields of a client file as texts. What is taken off the bytes of a field is
taken off its text as well, and the written numbers have nothing to take off.
-/

namespace CreditRating
namespace ClientFile

def isAsciiBlankChar (c : Char) : Bool :=
  c.toNat < 0x80 && isAsciiBlank (UInt8.ofNat c.toNat)

theorem isBlank_of_isAsciiBlankChar (c : Char) (h : isAsciiBlankChar c) : Text.isBlank c := by
  simp only [isAsciiBlankChar, isAsciiBlank, Bool.and_eq_true, decide_eq_true_eq, Bool.or_eq_true,
    beq_iff_eq] at h
  obtain ⟨low, byte⟩ := h
  have code (n : ℕ) (hn : n < 256) (e : UInt8.ofNat c.toNat = UInt8.ofNat n) : c.toNat = n := by
    have e := congrArg UInt8.toNat e
    rwa [Utf8.toNat_ofNat (by omega), Utf8.toNat_ofNat hn] at e
  have blank : c.toNat = 0x20 ∨ c.toNat = 0x09 ∨ c.toNat = 0x0A ∨ c.toNat = 0x0C ∨
      c.toNat = 0x0D := by
    obtain (((h | h) | h) | h) | h := byte
    · exact .inl (code 0x20 (by omega) h)
    · exact .inr (.inl (code 0x09 (by omega) h))
    · exact .inr (.inr (.inl (code 0x0A (by omega) h)))
    · exact .inr (.inr (.inr (.inl (code 0x0C (by omega) h))))
    · exact .inr (.inr (.inr (.inr (code 0x0D (by omega) h))))
  simp only [Text.isBlank, Text.blankRanges, List.any_cons, Bool.or_eq_true, Bool.and_eq_true,
    decide_eq_true_eq]
  omega

theorem isAsciiBlank_high {b : UInt8} (h : 0x80 ≤ b.toNat) : isAsciiBlank b = false := by
  simp only [isAsciiBlank, Bool.or_eq_false_iff, beq_eq_false_iff_ne]
  refine ⟨⟨⟨⟨?_, ?_⟩, ?_⟩, ?_⟩, ?_⟩ <;> rintro rfl <;> exact absurd h (by decide)

/-- White space can be taken off before a text is decoded, for no byte of another character looks
like it. -/
theorem trimBoth_encode (t : List Char) :
    Text.trimBoth isAsciiBlank (Utf8.encode t) =
      Utf8.encode (Text.trimBoth isAsciiBlankChar t) := by
  refine Text.trimBoth_flatMap ?_ ?_ t
  · intro c hc b hb
    simp only [isAsciiBlankChar, Bool.and_eq_true, decide_eq_true_eq] at hc
    rw [Utf8.encodeChar_ascii hc.1, List.mem_singleton] at hb
    exact hb ▸ hc.2
  · intro c hc
    refine ⟨String.utf8EncodeChar_ne_nil, ?_⟩
    intro b hb
    by_cases low : c.toNat < 0x80
    · rw [Utf8.encodeChar_ascii low, List.mem_singleton] at hb
      simpa [isAsciiBlankChar, low, hb] using hc
    · exact isAsciiBlank_high (Utf8.high_of_mem_encodeChar (by omega) hb)

/-- A field that is text is read as that text without the white space around it. -/
theorem readField_encode (t : List Char) : readField (Utf8.encode t) = .ok (Text.trim t) := by
  rw [readField, trimBoth_encode, Utf8.decode_encode]
  exact congrArg Except.ok (Text.trimBoth_trimBoth isBlank_of_isAsciiBlankChar t)

theorem readFields_encode (position : Csv.Position) (n : ℕ) (ts : List (List Char)) :
    readFields position n (ts.map Utf8.encode) = .ok (ts.map Text.trim) := by
  induction ts generalizing n with
  | nil => rfl
  | cons t ts ih =>
      simp only [List.map_cons, readFields, readField_encode, ih]
      rfl

theorem isBlank_of_isDigit {c : Char} (h : c.isDigit) : Text.isBlank c = false := by
  simp only [Char.isDigit, Bool.and_eq_true, decide_eq_true_eq] at h
  have low : 48 ≤ c.toNat := h.1
  have high : c.toNat ≤ 57 := h.2
  simp only [Text.isBlank, Text.blankRanges, List.any_cons, List.any_nil, Bool.or_eq_false_iff,
    Bool.and_eq_false_iff, decide_eq_false_iff_not, and_true]
  omega

theorem not_blank_of_numeral {s : List Char} (h : Decimal.Numeral s) :
    ∀ c ∈ s, Text.isBlank c = false := by
  have marks : ∀ c ∈ Decimal.marks, Text.isBlank c = false := by
    simp [Decimal.marks, Text.isBlank, Text.blankRanges]
  intro c hc
  have numeral := h c hc
  rw [Decimal.isNumeral, Bool.or_eq_true, List.contains_iff_mem] at numeral
  exact numeral.elim isBlank_of_isDigit (marks c)

theorem trimmed_of_numeral {s : List Char} (h : Decimal.Numeral s) :
    Text.Trimmed Text.isBlank s :=
  ⟨fun c hc => not_blank_of_numeral h c (List.mem_of_mem_head? hc),
    fun c hc => not_blank_of_numeral h c (List.mem_of_mem_getLast? hc)⟩

theorem readAge?_toString (age : Int32) : readAge? (toString age.toInt).toList = some age := by
  have low := age.minValue_le_toInt
  have high := age.toInt_le
  simp only [readAge?, Decimal.readInt?_toString, low, high, and_self, if_true, Int32.ofInt_toInt]

end ClientFile
end CreditRating

import CreditRating.Proofs.ClientFile.Outcomes
import CreditRating.Proofs.Csv.Unquoted

/-!
Files without quotes. No text of a client holds a line end there, since an ASCII character of a
field stands in the record as its byte.
-/

namespace CreditRating
namespace ClientFile

/-- An ASCII character of a field is a byte of the file. -/
theorem mem_of_mem_readField {bs : List UInt8} {t : List Char} (h : readField bs = .ok t)
    {c : Char} (ascii : c.toNat < 0x80) (hc : c ∈ t) : UInt8.ofNat c.toNat ∈ bs := by
  obtain ⟨s, decoded, rfl⟩ := exists_decode_of_readField h
  have mem : c ∈ s := Text.mem_of_mem_trimBoth hc
  exact Text.mem_of_mem_trimBoth (Utf8.mem_of_mem_decode decoded ascii mem)

theorem inLine_of_readField {bs : List UInt8} {t : List Char} (h : readField bs = .ok t)
    (inLine : Csv.InLine bs) : ∀ c ∈ t, Csv.isLineEndChar c = false := by
  intro c hc
  refine Bool.eq_false_iff.2 fun ends => ?_
  obtain ⟨b, hb, code⟩ := Csv.encode_lineEnd ends
  have ascii : c.toNat < 0x80 := by
    simp only [Csv.isLineEndChar, Bool.or_eq_true, beq_iff_eq] at ends
    obtain rfl | rfl := ends <;> decide
  rw [Utf8.encode_cons, Utf8.encode_nil, List.append_nil, Utf8.encodeChar_ascii ascii,
    List.singleton_inj] at code
  have mem := mem_of_mem_readField h ascii hc
  rw [code] at mem
  rw [inLine b mem] at hb
  cases hb

/-- A file without quotes has no client with a line end in a text. -/
theorem inLine_of_parse {bs : List UInt8} {cs : List Client} (plain : Csv.quote ∉ bs)
    (h : parse bs = .ok cs) :
    ∀ c ∈ cs, ∀ s ∈ [c.id, c.name, c.country, c.clientType, c.employment, c.industry],
      ∀ x ∈ s.toList, Csv.isLineEndChar x = false := by
  intro c hc s hs
  obtain ⟨asked, r, hr, read⟩ := exists_readRow_of_parse h c hc
  obtain ⟨-, -, texts⟩ := texts_of_readRow read
  obtain ⟨f, hf, field⟩ := texts s hs
  exact inLine_of_readField field (Csv.inLine_of_mem_rows plain r hr f hf)

end ClientFile
end CreditRating

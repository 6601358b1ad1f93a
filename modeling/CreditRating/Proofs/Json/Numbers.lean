import CreditRating.Proofs.Decimal.ReadBack
import CreditRating.Proofs.Json.Reader

/-!
The numbers of a document. Integers and finite numbers are written as the grammar
wants them, and what is written is read as the same integer or number.
-/

namespace CreditRating
namespace Json

open Binary Decimal
open Float.Model.UnpackedFloat (Sign)

theorem head?_toDigits {n : ℕ} (h : 0 < n) : (Nat.toDigits 10 n).head? ≠ some '0' := by
  induction n using Nat.strongRecOn with
  | ind n ih =>
      rw [Nat.toDigits_eq_if (by omega)]
      split
      · next small =>
          have digit : ∀ d < 10, 0 < d → [d.digitChar].head? ≠ some '0' := by decide
          exact digit n small h
      · have rest := ih (n / 10) (by omega) (by omega)
        obtain ⟨c, s, hs⟩ :=
          List.exists_cons_of_ne_nil (Nat.toDigits_ne_nil (b := 10) (n := n / 10))
        rw [hs] at rest ⊢
        exact rest

theorem isWhole_of_head? {s : List Char} (ne : s ≠ []) (h : s.head? ≠ some '0') : isWhole s := by
  cases s with
  | nil => exact absurd rfl ne
  | cons c s =>
      have other : c ≠ '0' := fun e => h (congrArg some e)
      unfold isWhole
      split
      · next e => cases e
      · rfl
      · next e =>
          cases e
          simpa using other

theorem isWhole_toDigits (n : ℕ) : isWhole (Nat.toDigits 10 n) := by
  obtain rfl | pos := Nat.eq_zero_or_pos n
  · rfl
  · exact isWhole_of_head? Nat.toDigits_ne_nil (head?_toDigits pos)

theorem digitSpan_append_of_head? {s t : List Char} (hs : AllDigits s)
    (ht : ∀ c ∈ t.head?, c.isDigit = false) : digitSpan (s ++ t) = (s, t) := by
  cases t with
  | nil => rw [List.append_nil, digitSpan_of_digits hs]
  | cons c t => exact digitSpan_append hs (ht c rfl) t

/-- A text that is an exponent with its letter, or no text. -/
inductive ExponentText : List Char → ℤ → Prop
  | absent : ExponentText [] 0
  | present (k : ℤ) : ExponentText (exponentText true k).toList k

/-- The letter, the sign and the digits of an exponent. -/
theorem toList_exponentText (k : ℤ) :
    ∃ sign, (sign = '-' ∧ k = -(k.natAbs : ℤ) ∨ sign = '+' ∧ k = (k.natAbs : ℤ)) ∧
      (exponentText true k).toList = 'e' :: sign :: Nat.toDigits 10 k.natAbs := by
  have digits : (toString k.natAbs).toList = Nat.toDigits 10 k.natAbs := Nat.toList_repr
  rw [exponentText]
  split
  · exact ⟨'-', .inl ⟨rfl, by omega⟩, by rw [String.toList_append, digits]; rfl⟩
  · exact ⟨'+', .inr ⟨rfl, by omega⟩, by rw [if_pos rfl, String.toList_append, digits]; rfl⟩

theorem readInt?_signed {sign : Char} {n : ℕ} {k : ℤ}
    (h : sign = '-' ∧ k = -(n : ℤ) ∨ sign = '+' ∧ k = (n : ℤ)) :
    readInt? (sign :: Nat.toDigits 10 n) = some k := by
  have all : (Nat.toDigits 10 n).all Char.isDigit := List.all_eq_true.2 (allDigits_toDigits n)
  obtain ⟨rfl, rfl⟩ | ⟨rfl, rfl⟩ := h <;>
    simp [readInt?, takeSign, Nat.toDigits_ne_nil, all, digitValue_toDigits, -List.all_eq_true]

theorem isWordChar_of_isDigit {c : Char} (h : c.isDigit) : isWordChar c := by
  simp [isWordChar, Char.isAlphanum, h]

namespace ExponentText

variable {t : List Char} {k : ℤ}

theorem read (h : ExponentText t k) : readExponent? t = some k := by
  cases h with
  | absent => rfl
  | present k =>
      obtain ⟨sign, value, text⟩ := toList_exponentText k
      rw [text]
      exact readInt?_signed value

theorem isExponent (h : ExponentText t k) : isExponent t := by
  cases h with
  | absent => rfl
  | present k =>
      obtain ⟨sign, value, text⟩ := toList_exponentText k
      have all : (Nat.toDigits 10 k.natAbs).all Char.isDigit :=
        List.all_eq_true.2 (allDigits_toDigits _)
      rw [text]
      obtain ⟨rfl, -⟩ | ⟨rfl, -⟩ := value <;>
        simp [Json.isExponent, takeSign, all, Nat.toDigits_ne_nil]

theorem head? (h : ExponentText t k) : ∀ c ∈ t.head?, c = 'e' := by
  cases h with
  | absent => nofun
  | present k =>
      obtain ⟨sign, -, text⟩ := toList_exponentText k
      rw [text]
      exact fun c hc => (Option.some.inj hc).symm

theorem not_digit (h : ExponentText t k) : ∀ c ∈ t.head?, c.isDigit = false :=
  fun c hc => h.head? c hc ▸ rfl

theorem word (h : ExponentText t k) : ∀ c ∈ t, isWordChar c := by
  cases h with
  | absent => nofun
  | present k =>
      obtain ⟨sign, value, text⟩ := toList_exponentText k
      have signed : isWordChar sign := by
        obtain ⟨rfl, -⟩ | ⟨rfl, -⟩ := value <;> decide
      rw [text]
      intro c hc
      obtain rfl | hc := List.mem_cons.1 hc
      · decide
      · obtain rfl | hc := List.mem_cons.1 hc
        · exact signed
        · exact isWordChar_of_isDigit (allDigits_toDigits _ c hc)

end ExponentText

/-- The text is a number without sign that writes `c * 10 ^ k`. -/
structure Writes (t : List Char) (c : ℕ) (k : ℤ) : Prop where
  isUnsigned : isUnsigned t
  scaled : readScaled? t = some (c, k)
  word : ∀ d ∈ t, isWordChar d
  digit : ∃ d s, d.isDigit ∧ t = d :: s

section

variable {whole fraction exponent : List Char} {k : ℤ} (whole_digits : AllDigits whole)
  (leads : isWhole whole)
include whole_digits leads

theorem ne_nil_of_isWhole : whole ≠ [] := by
  rintro rfl
  cases leads

theorem exists_digit_of_isWhole (t : List Char) : ∃ d s, d.isDigit ∧ whole ++ t = d :: s := by
  obtain ⟨d, s, rfl⟩ := List.exists_cons_of_ne_nil (ne_nil_of_isWhole whole_digits leads)
  exact ⟨d, s ++ t, whole_digits d (.head s), rfl⟩

/-- Digits without a point. -/
theorem writes_whole (he : ExponentText exponent k) :
    Writes (whole ++ exponent) (digitValue whole) k := by
  have span := digitSpan_append_of_head? whole_digits he.not_digit
  have ne := ne_nil_of_isWhole whole_digits leads
  have point (s : List Char) : exponent ≠ '.' :: s := by
    rintro rfl
    exact absurd (he.head? '.' rfl) (by decide)
  refine ⟨?_, ?_, ?_, exists_digit_of_isWhole whole_digits leads exponent⟩
  · rw [Json.isUnsigned, span, leads, isFraction]
    · exact he.isExponent
    · exact point
  · rw [readScaled?, span]
    dsimp only
    split
    · next r => exact absurd rfl (point r)
    · simp [ne, he.read]
  · intro c hc
    exact (List.mem_append.1 hc).elim (fun h => isWordChar_of_isDigit (whole_digits c h))
      (he.word c)

/-- Digits on both sides of a point. -/
theorem writes_point (fraction_digits : AllDigits fraction) (ne : fraction ≠ [])
    (he : ExponentText exponent k) :
    Writes (whole ++ '.' :: (fraction ++ exponent)) (digitValue (whole ++ fraction))
      (k - fraction.length) := by
  have span := digitSpan_append whole_digits (c := '.') rfl (fraction ++ exponent)
  have rest := digitSpan_append_of_head? fraction_digits he.not_digit
  refine ⟨?_, ?_, ?_, exists_digit_of_isWhole whole_digits leads _⟩
  · rw [Json.isUnsigned, span, leads, isFraction, rest, he.isExponent]
    simpa using ne
  · simp only [readScaled?, span, rest]
    simp [ne, he.read]
  · intro c hc
    obtain hc | hc := List.mem_append.1 hc
    · exact isWordChar_of_isDigit (whole_digits c hc)
    obtain rfl | hc := List.mem_cons.1 hc
    · decide
    · exact (List.mem_append.1 hc).elim (fun h => isWordChar_of_isDigit (fraction_digits c h))
        (he.word c)

end

theorem isWhole_of_head?_toDigits {n : ℕ} (h : 0 < n) {s : List Char} (ne : s ≠ [])
    (head : s = ['0'] ∨ s.head? = (Nat.toDigits 10 n).head?) : isWhole s := by
  obtain rfl | head := head
  · rfl
  · exact isWhole_of_head? ne (head ▸ head?_toDigits h)

theorem writes_positional {n : ℕ} (h : 0 < n) (p : ℤ) :
    ∃ c k, Writes (positionalText true (Nat.toDigits 10 n)
        (p + ((Nat.toDigits 10 n).length - 1 : ℕ))).toList c k ∧
      (c : ℚ) * 10 ^ k = n * 10 ^ p ∧ min p (-1) ≤ k ∧ k ≤ 0 := by
  obtain ⟨whole, fraction, pointed, text⟩ :=
    toList_positionalText true Nat.toDigits_ne_nil (allDigits_toDigits n) p
  have leads := isWhole_of_head?_toDigits h pointed.whole_ne pointed.leads
  have value := pointed.value_eq
  rw [digitValue_toDigits] at value
  have exact := scaled_eq n p
  rw [← pointed.length_eq] at exact
  rw [text]
  by_cases none : fraction = []
  · subst none
    refine ⟨_, _, writes_point pointed.whole_digits leads (allDigits_zeros 1)
      (List.cons_ne_nil _ _) .absent, ?_, by simp, by simp⟩
    rw [digitValue_append, show digitValue (List.replicate 1 '0') = 0 from rfl]
    rw [List.append_nil] at value
    rw [value, ← exact]
    push_cast
    simp
    ring
  · rw [if_neg none]
    have writes := writes_point pointed.whole_digits leads pointed.fraction_digits none .absent
    have length := pointed.length_eq
    rw [List.append_nil] at writes
    refine ⟨_, _, writes, ?_, by omega, by omega⟩
    rw [value, zero_sub]
    exact exact

theorem writes_scientific {n : ℕ} (h : 0 < n) (p : ℤ) :
    Writes (scientificText true (Nat.toDigits 10 n)
      (p + ((Nat.toDigits 10 n).length - 1 : ℕ))).toList n p := by
  have value := digitValue_toDigits n
  have digits := allDigits_toDigits n
  have head := head?_toDigits h
  obtain ⟨d, ds, hd⟩ := List.exists_cons_of_ne_nil (Nat.toDigits_ne_nil (b := 10) (n := n))
  rw [hd] at value digits head ⊢
  have one : AllDigits [d] := fun c hc => digits c (List.mem_singleton.1 hc ▸ .head ds)
  have leads : isWhole [d] := isWhole_of_head? (List.cons_ne_nil _ _) head
  cases ds with
  | nil =>
      have writes := writes_whole one leads (.present p)
      rw [value] at writes
      simpa [scientificText] using writes
  | cons x ds =>
      have rest : AllDigits (x :: ds) := fun c hc => digits c (.tail d hc)
      have writes := writes_point one leads rest (List.cons_ne_nil _ _)
        (.present (p + ((d :: x :: ds).length - 1 : ℕ)))
      rw [show [d] ++ x :: ds = d :: x :: ds from rfl, value] at writes
      have power : p + ((d :: x :: ds).length - 1 : ℕ) - (x :: ds).length = p := by simp
      rw [power] at writes
      simpa [scientificText] using writes

/-- Either notation writes the value of the decimal. -/
theorem writes_unsigned {s : Scaled} (h : 0 < s.coefficient) :
    ∃ c k, Writes (document.unsigned s).toList c k ∧ (c : ℚ) * 10 ^ k = s.value ∧
      min s.power (-1) ≤ k ∧ k ≤ max s.power 0 := by
  rw [Notation.unsigned]
  split
  · obtain ⟨c, k, writes, value, low, high⟩ := writes_positional h s.power
    exact ⟨c, k, writes, value, low, by omega⟩
  · exact ⟨_, _, writes_scientific h s.power, rfl, by omega, by omega⟩

structure NumberText (t : List Char) : Prop where
  isNumber : isNumber t
  word : ∀ c ∈ t, isWordChar c

theorem NumberText.word? {t : List Char} (h : NumberText t) : Json.word? t = some (.number t) := by
  have ne {w : List Char} (hw : Json.isNumber w = false) : t ≠ w := by
    rintro rfl
    exact absurd h.isNumber (by rw [hw]; decide)
  rw [Json.word?, if_neg (ne (by decide)), if_neg (ne (by decide)), if_neg (ne (by decide)),
    if_pos h.isNumber]

theorem Writes.numberText {t : List Char} {c : ℕ} {k : ℤ} (h : Writes t c k) (s : Sign) :
    NumberText ((signText .hidden (Parts.isNegativeSign s)).toList ++ t) := by
  cases s with
  | negative => exact ⟨h.isUnsigned, List.forall_mem_cons.2 ⟨by decide, h.word⟩⟩
  | positive =>
      refine ⟨?_, h.word⟩
      obtain ⟨d, s, hd, rfl⟩ := h.digit
      change isNumber (d :: s)
      rw [isNumber]
      · exact h.isUnsigned
      · intro rest eq
        cases eq
        cases hd

/-- What is written with a sign in front is read with that sign. -/
theorem Writes.read? {t : List Char} {c : ℕ} {k : ℤ} (h : Writes t c k) (s : Sign) :
    Decimal.read? ((signText .hidden (Parts.isNegativeSign s)).toList ++ t) =
      some (withSign s (round c k)) := by
  have scaled := h.scaled
  obtain ⟨d, t, hd, rfl⟩ := h.digit
  exact read?_signed hd scaled s

theorem numberText_toString (n : ℤ) : NumberText (toString n).toList := by
  have digits (n : ℕ) :=
    (writes_whole (allDigits_toDigits n) (isWhole_toDigits n) .absent).numberText
  cases n with
  | ofNat n =>
      rw [toList_toString_ofNat]
      simpa [signText, Parts.isNegativeSign] using digits n .positive
  | negSucc n =>
      rw [toList_toString_negSucc]
      simpa [signText, Parts.isNegativeSign] using digits (n + 1) .negative

theorem toList_document_finite (s : Sign) {m : ℕ} (e : ℤ) (hm : 0 < m) :
    (document.ofParts (.ofUnpacked (.finite s m e hm))).toList =
      (signText .hidden (Parts.isNegativeSign s)).toList ++
        (document.unsigned (shortest document.tie m e)).toList := by
  rw [← String.toList_append]
  refine congrArg String.toList ?_
  simp only [Notation.ofParts, Parts.ofUnpacked, if_neg hm.ne']

/-- A finite number is a number of the document, and it is read as the same number, the
sign of a zero included. -/
theorem document_text {x : Float} (h : x.isFinite) :
    NumberText (document.text x).toList ∧ read? (document.text x).toList = some x := by
  have text : document.text x = document.ofParts (.ofUnpacked (unpacked x)) := rfl
  rw [isFinite_eq] at h
  rw [text]
  cases hu : unpacked x with
  | notANumber => rw [hu] at h; cases h
  | infinity s => rw [hu] at h; cases h
  | zero s =>
      have writes : Writes ['0', '.', '0'] 0 (-1) :=
        writes_point (allDigits_zeros 1) rfl (allDigits_zeros 1) (List.cons_ne_nil _ _) .absent
      have same : withSign s (round 0 (-1)) = x := by
        refine withSign_eq (unpacked_round_zero (-1)) ?_ ?_ <;> rintro rfl <;> exact hu
      have zero : (document.ofParts (.ofUnpacked (.zero s))).toList =
          (signText .hidden (Parts.isNegativeSign s)).toList ++ ['0', '.', '0'] := by
        cases s <;> rfl
      rw [zero]
      exact ⟨writes.numberText s, (writes.read? s).trans (congrArg some same)⟩
  | finite s m e hm =>
      have fits : Fits (.finite s m e hm) := hu ▸ fits_unpacked x
      obtain ⟨pos, low, high⟩ := shortest_bounds hm fits document.tie
      obtain ⟨c, k, writes, value, low', high'⟩ := writes_unsigned pos
      rw [toList_document_finite]
      refine ⟨writes.numberText s, (writes.read? s).trans (congrArg some (withSign_eq
        (unpacked_round_of_value hm fits document.tie (by omega) (by omega) value) ?_ ?_))⟩ <;>
        rintro rfl <;> exact hu

theorem document_text_of_not_finite {x : Float} (h : ¬ x.isFinite) : document.text x = "null" := by
  have text : document.text x = document.ofParts (.ofUnpacked (unpacked x)) := rfl
  rw [isFinite_eq] at h
  rw [text]
  cases hu : unpacked x with
  | notANumber | infinity s => rfl
  | zero s | finite s m e hm => exact absurd (by rw [hu]; rfl) h

end Json
end CreditRating

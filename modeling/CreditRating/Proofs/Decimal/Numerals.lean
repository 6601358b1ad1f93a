import CreditRating.Proofs.Decimal.Digits

/-!
The characters of written numbers: digits, the point, the signs and the letters of the words for
what is no quantity. Every text of a number without an exponent is made of these.
-/

namespace CreditRating
namespace Decimal

def marks : List Char := ['+', '-', '.', 'N', 'a', 'i', 'n', 'f']

def isNumeral (c : Char) : Bool := c.isDigit || marks.contains c

def Numeral (s : List Char) : Prop := ∀ c ∈ s, isNumeral c

instance (s : List Char) : Decidable (Numeral s) :=
  List.decidableBAll _ s

theorem Numeral.append {s t : List Char} (hs : Numeral s) (ht : Numeral t) : Numeral (s ++ t) := by
  intro c hc
  exact (List.mem_append.1 hc).elim (hs c) (ht c)

theorem AllDigits.numeral {s : List Char} (h : AllDigits s) : Numeral s := by
  intro c hc
  rw [isNumeral, h c hc, Bool.true_or]

theorem numeral_point {s t : List Char} (hs : AllDigits s) (ht : AllDigits t) :
    Numeral (s ++ '.' :: t) := by
  have point : Numeral ['.'] := by decide
  exact hs.numeral.append (point.append ht.numeral)

theorem numeral_toString (n : Int) : Numeral (toString n).toList := by
  cases n with
  | ofNat n =>
      rw [toList_toString_ofNat]
      exact (allDigits_toDigits n).numeral
  | negSucc n =>
      have sign : Numeral ['-'] := by decide
      rw [toList_toString_negSucc]
      exact sign.append (allDigits_toDigits (n + 1)).numeral

theorem numeral_signText (plus : Plus) (negative : Bool) :
    Numeral (signText plus negative).toList := by
  cases plus <;> cases negative <;> decide

theorem numeral_positionalText {digits : List Char} (h : digits ≠ []) (hd : AllDigits digits)
    (p : Int) : Numeral (positionalText false digits (p + (digits.length - 1 : Nat))).toList := by
  obtain ⟨whole, fraction, pointed, text⟩ := toList_positionalText false h hd p
  rw [text]
  split
  · rw [if_neg Bool.false_ne_true, List.append_nil]
    exact pointed.whole_digits.numeral
  · exact numeral_point pointed.whole_digits pointed.fraction_digits

/-- A number is written with digits, signs, points and the letters of its special names. -/
theorem numeral_plainText (x : Float) : Numeral (plainText x).toList := by
  rw [plainText, Notation.text]
  generalize Parts.ofFloat x = parts
  cases parts with
  | notANumber => decide
  | infinite negative => cases negative <;> decide
  | finite negative m e =>
      rw [Notation.ofParts, String.toList_append]
      refine (numeral_signText .hidden negative).append ?_
      split
      · decide
      · exact numeral_positionalText Nat.toDigits_ne_nil (allDigits_toDigits _) _

theorem numeral_withPoint (places n : Nat) : Numeral (withPoint places n).toList := by
  have all := allDigits_leftpad (places + 1) n
  rw [withPoint]
  split
  · rw [String.toList_ofList]
    exact all.numeral
  · rw [String.toList_ofList]
    exact numeral_point (fun c hc => all c (List.mem_of_mem_take hc))
      fun c hc => all c (List.mem_of_mem_drop hc)

theorem numeral_fixedParts (plus : Plus) (places : Nat) (parts : Parts) :
    Numeral (fixedParts plus places parts).toList := by
  have words : Numeral "NaN".toList ∧ Numeral "inf".toList := by decide
  cases parts with
  | notANumber => exact words.1
  | infinite negative =>
      rw [fixedParts, String.toList_append]
      exact (numeral_signText plus negative).append words.2
  | finite negative m e =>
      rw [fixedParts, String.toList_append]
      exact (numeral_signText plus negative).append (numeral_withPoint places _)

theorem numeral_fixed (places : Nat) (x : Float) : Numeral (fixed places x).toList :=
  numeral_fixedParts .hidden places _

theorem numeral_fixedSigned (places : Nat) (x : Float) : Numeral (fixedSigned places x).toList :=
  numeral_fixedParts .shown places _

end Decimal
end CreditRating

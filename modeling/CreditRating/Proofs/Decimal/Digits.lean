import CreditRating.Decimal.Notation
import CreditRating.Decimal.Reading
import Mathlib.Data.List.TakeWhile
import Mathlib.Tactic.NormNum

/-!
Decimal digits read back. An integer is what its digits write, and a decimal
without exponent is read with the power of ten that its point gives it.
-/

namespace CreditRating
namespace Decimal

theorem digitValue_eq (s : List Char) : digitValue s = Nat.ofDigitChars 10 s 0 :=
  Nat.ofDigitChars_eq_foldl.symm

theorem digitValue_append (s t : List Char) :
    digitValue (s ++ t) = 10 ^ t.length * digitValue s + digitValue t := by
  simp only [digitValue_eq]
  rw [Nat.ofDigitChars_append, Nat.ofDigitChars_eq_ofDigitChars_zero]

theorem digitValue_zeros (n : Nat) : digitValue (List.replicate n '0') = 0 := by
  rw [digitValue_eq, Nat.ofDigitChars_replicate_zero, Nat.mul_zero]

theorem digitValue_toDigits (n : Nat) : digitValue (Nat.toDigits 10 n) = n := by
  rw [digitValue_eq, Nat.ofDigitChars_ten_toDigits]

def AllDigits (s : List Char) : Prop := ∀ c ∈ s, c.isDigit

theorem allDigits_toDigits (n : Nat) : AllDigits (Nat.toDigits 10 n) := by
  intro c hc
  exact Nat.isDigit_of_mem_toDigits (by omega) (by omega) hc

theorem allDigits_zeros (n : Nat) : AllDigits (List.replicate n '0') := by
  intro c hc
  rw [List.eq_of_mem_replicate hc]
  rfl

theorem AllDigits.append {s t : List Char} (hs : AllDigits s) (ht : AllDigits t) :
    AllDigits (s ++ t) := by
  intro c hc
  exact (List.mem_append.1 hc).elim (hs c) (ht c)

theorem digitValue_leftpad (k n : Nat) :
    digitValue ((Nat.toDigits 10 n).leftpad k '0') = n := by
  rw [List.leftpad, digitValue_append, digitValue_zeros, digitValue_toDigits, Nat.mul_zero,
    Nat.zero_add]

theorem allDigits_leftpad (k n : Nat) : AllDigits ((Nat.toDigits 10 n).leftpad k '0') :=
  (allDigits_zeros _).append (allDigits_toDigits n)

theorem le_length_leftpad (k n : Nat) : k ≤ ((Nat.toDigits 10 n).leftpad k '0').length := by
  rw [List.length_leftpad]
  exact Nat.le_max_left _ _

theorem takeSign_of_digit {c : Char} (h : c.isDigit) (s : List Char) :
    takeSign (c :: s) = (false, c :: s) := by
  unfold takeSign
  split
  · next heq => cases heq; cases h
  · next heq => cases heq; cases h
  · rfl

theorem digitSpan_of_digits {s : List Char} (h : AllDigits s) : digitSpan s = (s, []) := by
  rw [digitSpan, List.takeWhile_eq_self_iff.2 h, List.dropWhile_eq_nil_iff.2 h]

theorem digitSpan_append {s : List Char} (h : AllDigits s) {c : Char} (hc : c.isDigit = false)
    (t : List Char) : digitSpan (s ++ c :: t) = (s, c :: t) := by
  rw [digitSpan, List.takeWhile_append_of_pos h, List.dropWhile_append_of_pos h]
  simp [hc]

/-- A text that begins with a digit has no sign. -/
theorem takeSign_of_digits {s : List Char} (h : AllDigits s) (hs : s ≠ []) (t : List Char) :
    takeSign (s ++ t) = (false, s ++ t) := by
  cases s with
  | nil => exact absurd rfl hs
  | cons c s => exact takeSign_of_digit (h c (.head s)) (s ++ t)

theorem toList_toString_ofNat (n : Nat) : (toString (Int.ofNat n)).toList = Nat.toDigits 10 n := by
  rw [Int.toString_eq_repr, Int.repr, Nat.toList_repr]

theorem toList_toString_negSucc (n : Nat) :
    (toString (Int.negSucc n)).toList = '-' :: Nat.toDigits 10 (n + 1) := by
  rw [Int.toString_eq_repr]
  simp [Int.repr]

theorem readInt?_of_takeSign {s t : List Char} {negative : Bool} (sign : takeSign s = (negative, t))
    (h : AllDigits t) (ht : t ≠ []) :
    readInt? s = some (if negative then -(digitValue t : Int) else digitValue t) := by
  have all : t.all Char.isDigit := List.all_eq_true.2 h
  simp only [readInt?, sign, ne_eq, ht, not_false_eq_true, all, and_self, if_true]

/-- An integer is read back from its text. -/
theorem readInt?_toString (n : Int) : readInt? (toString n).toList = some n := by
  cases n with
  | ofNat n =>
      have sign := takeSign_of_digits (allDigits_toDigits n) Nat.toDigits_ne_nil []
      rw [List.append_nil] at sign
      rw [toList_toString_ofNat, readInt?_of_takeSign sign (allDigits_toDigits n)
        Nat.toDigits_ne_nil, digitValue_toDigits]
      rfl
  | negSucc n =>
      have sign : takeSign ('-' :: Nat.toDigits 10 (n + 1)) = (true, Nat.toDigits 10 (n + 1)) := rfl
      rw [toList_toString_negSucc, readInt?_of_takeSign sign (allDigits_toDigits (n + 1))
        Nat.toDigits_ne_nil, digitValue_toDigits]
      rfl

theorem readScaled?_whole {s : List Char} (h : AllDigits s) (hs : s ≠ []) :
    readScaled? s = some (digitValue s, 0) := by
  simp only [readScaled?, digitSpan_of_digits h]
  simp [hs, readExponent?]

theorem readScaled?_point {s t : List Char} (hs : AllDigits s) (ht : AllDigits t) (h : s ≠ []) :
    readScaled? (s ++ '.' :: t) = some (digitValue (s ++ t), -(t.length : Int)) := by
  simp only [readScaled?, digitSpan_append hs (c := '.') rfl, digitSpan_of_digits ht]
  simp [h, readExponent?]

/-- Digits times a power of ten, set out before the point and after it. No zero stands before
other digits of the whole part, unless one led the digits. -/
structure Pointed (digits : List Char) (p : Int) (whole fraction : List Char) : Prop where
  whole_digits : AllDigits whole
  fraction_digits : AllDigits fraction
  whole_ne : whole ≠ []
  leads : whole = ['0'] ∨ whole.head? = digits.head?
  value_eq : digitValue (whole ++ fraction) = digitValue digits * 10 ^ p.toNat
  length_eq : fraction.length = (-p).toNat

section

variable {digits : List Char} (h : digits ≠ []) (hd : AllDigits digits) {p : Int}
include h hd

/-- All digits are behind the point, and zeros may be between. -/
theorem pointed_below_one (below : p + (digits.length - 1 : Nat) < 0) :
    Pointed digits p ['0']
      (List.replicate (-(p + (digits.length - 1 : Nat)) - 1).toNat '0' ++ digits) where
  whole_digits := allDigits_zeros 1
  fraction_digits := (allDigits_zeros _).append hd
  whole_ne := List.cons_ne_nil _ _
  leads := .inl rfl
  value_eq := by
    rw [digitValue_append, digitValue_append, digitValue_zeros,
      show digitValue ['0'] = 0 from rfl, show p.toNat = 0 by omega]
    simp
  length_eq := by
    have length : 0 < digits.length := List.length_pos_iff.2 h
    rw [List.length_append, List.length_replicate]
    omega

/-- Nothing is behind the point. -/
theorem pointed_whole (whole : 0 ≤ p) :
    Pointed digits p (digits ++ List.replicate p.toNat '0') [] where
  whole_digits := hd.append (allDigits_zeros _)
  fraction_digits := nofun
  whole_ne := by simp [h]
  leads := by
    obtain ⟨c, s, rfl⟩ := List.exists_cons_of_ne_nil h
    exact .inr rfl
  value_eq := by
    rw [List.append_nil, digitValue_append, digitValue_zeros, List.length_replicate,
      Nat.add_zero, Nat.mul_comm]
  length_eq := by
    rw [List.length_nil]
    omega

/-- The point is between two of the digits. -/
theorem pointed_between (first : 0 ≤ p + (digits.length - 1 : Nat)) (broken : p < 0) :
    Pointed digits p (digits.take ((p + (digits.length - 1 : Nat)).toNat + 1))
      (digits.drop ((p + (digits.length - 1 : Nat)).toNat + 1)) where
  whole_digits := fun c hc => hd c (List.mem_of_mem_take hc)
  fraction_digits := fun c hc => hd c (List.mem_of_mem_drop hc)
  whole_ne := by
    rw [Ne, List.take_eq_nil_iff]
    exact fun none => none.elim (by omega) h
  leads := .inr (by rw [List.head?_take, if_neg (by omega)])
  value_eq := by
    rw [List.take_append_drop, show p.toNat = 0 by omega, Nat.pow_zero, Nat.mul_one]
  length_eq := by
    rw [List.length_drop]
    omega

end

/-- The digits of a positional text before its point, and those after it. -/
theorem toList_positionalText (pointZero : Bool) {digits : List Char} (h : digits ≠ [])
    (hd : AllDigits digits) (p : Int) :
    ∃ whole fraction, Pointed digits p whole fraction ∧
      (positionalText pointZero digits (p + (digits.length - 1 : Nat))).toList =
        if fraction = [] then whole ++ (if pointZero then ['.', '0'] else [])
        else whole ++ '.' :: fraction := by
  have length : 0 < digits.length := List.length_pos_iff.2 h
  rw [positionalText]
  by_cases below : p + (digits.length - 1 : Nat) < 0
  · refine ⟨_, _, pointed_below_one h hd below, ?_⟩
    rw [if_pos below, String.toList_ofList, if_neg (by simp [h])]
    rfl
  · simp only [if_neg below]
    by_cases whole : 0 ≤ p
    · have take : digits.take ((p + (digits.length - 1 : Nat)).toNat + 1) = digits :=
        List.take_of_length_le (by omega)
      have drop : digits.drop ((p + (digits.length - 1 : Nat)).toNat + 1) = [] :=
        List.drop_of_length_le (by omega)
      refine ⟨_, _, pointed_whole h hd whole, ?_⟩
      rw [take, drop, if_pos rfl, if_pos rfl,
        show (p + (digits.length - 1 : Nat)).toNat + 1 - digits.length = p.toNat by omega]
      cases pointZero <;> simp
    · have drop : digits.drop ((p + (digits.length - 1 : Nat)).toNat + 1) ≠ [] := by
        rw [Ne, List.drop_eq_nil_iff]
        omega
      refine ⟨_, _, pointed_between h hd (Int.not_lt.1 below) (Int.not_le.1 whole), ?_⟩
      rw [if_neg drop, if_neg drop, String.toList_ofList, List.length_take,
        Nat.min_eq_left (by omega), Nat.sub_self, List.replicate_zero, List.append_nil]

/-- What a positional text is read as: a coefficient and a power of ten that is not positive. -/
theorem readScaled?_positionalText {digits : List Char} (h : digits ≠ []) (hd : AllDigits digits)
    (p : Int) :
    readScaled? (positionalText false digits (p + (digits.length - 1 : Nat))).toList =
      some (digitValue digits * 10 ^ p.toNat, -((-p).toNat : Int)) := by
  obtain ⟨whole, fraction, pointed, text⟩ := toList_positionalText false h hd p
  have value := pointed.value_eq
  have length := pointed.length_eq
  rw [text]
  split
  · next none =>
      rw [none, List.append_nil] at value
      rw [none, List.length_nil] at length
      rw [if_neg Bool.false_ne_true, List.append_nil,
        readScaled?_whole pointed.whole_digits pointed.whole_ne, value, ← length]
      rfl
  · rw [readScaled?_point pointed.whole_digits pointed.fraction_digits pointed.whole_ne, value,
      length]

end Decimal
end CreditRating

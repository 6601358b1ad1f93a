import CreditRating.Proofs.Decimal.Digits
import CreditRating.Text
import Mathlib.Data.Char
import Mathlib.Data.List.Lex

/-!
Texts of a fixed width. The first part that differs decides their order, and numbers with zeros
before them are in the order of the numbers.
-/

namespace CreditRating

section

variable {α : Type} [LT α] {s t u v : List α} {ss ts : List (List α)}

/-- Where the first parts have one length, they decide before the second ones. -/
theorem append_lt_append_iff (h : s.length = t.length) :
    s ++ u < t ++ v ↔ s < t ∨ s = t ∧ u < v := by
  induction s generalizing t with
  | nil =>
      rw [List.length_eq_zero_iff.1 h.symm]
      simp
  | cons a s ih =>
      cases t with
      | nil => cases h
      | cons b t =>
          rw [List.cons_append, List.cons_append, List.cons_lt_cons_iff, ih (Nat.succ.inj h),
            List.cons_lt_cons_iff, List.cons.injEq, and_or_left, or_assoc, and_assoc]

/-- Lists whose parts have the same lengths are compared part by part. -/
theorem flatten_lt_flatten_iff (h : ss.map List.length = ts.map List.length) :
    ss.flatten < ts.flatten ↔ ss < ts := by
  induction ss generalizing ts with
  | nil =>
      rw [List.map_eq_nil_iff.1 h.symm]
      simp
  | cons s ss ih =>
      cases ts with
      | nil => cases h
      | cons t ts =>
          obtain ⟨first, rest⟩ := List.cons.inj h
          rw [List.flatten_cons, List.flatten_cons, append_lt_append_iff first, ih rest,
            List.cons_lt_cons_iff]

end

namespace Decimal

def digitOf (c : Char) : Nat := c.toNat - '0'.toNat

theorem digitOf_lt {c : Char} (h : c.isDigit) : digitOf c < 10 := by
  have high : c.toNat ≤ 57 := (Char.isDigit_iff_toNat.1 h).2
  have zero : '0'.toNat = 48 := rfl
  rw [digitOf]
  omega

theorem toNat_eq_digitOf {c : Char} (h : c.isDigit) : c.toNat = '0'.toNat + digitOf c :=
  (Nat.add_sub_of_le (Char.isDigit_iff_toNat.1 h).1).symm

theorem digitOf_lt_digitOf_iff {c d : Char} (hc : c.isDigit) (hd : d.isDigit) :
    digitOf c < digitOf d ↔ c < d := by
  have order : c < d ↔ c.toNat < d.toNat := Iff.rfl
  rw [order, toNat_eq_digitOf hc, toNat_eq_digitOf hd, Nat.add_lt_add_iff_left]

theorem digitOf_eq_digitOf_iff {c d : Char} (hc : c.isDigit) (hd : d.isDigit) :
    digitOf c = digitOf d ↔ c = d := by
  rw [← Char.toNat_inj, toNat_eq_digitOf hc, toNat_eq_digitOf hd, Nat.add_left_cancel_iff]

theorem digitValue_cons (c : Char) (s : List Char) :
    digitValue (c :: s) = 10 ^ s.length * digitOf c + digitValue s := by
  have first : digitValue [c] = digitOf c := Nat.zero_add _
  rw [← List.singleton_append, digitValue_append, first]

theorem digitValue_lt {s : List Char} (h : AllDigits s) : digitValue s < 10 ^ s.length := by
  induction s with
  | nil => exact Nat.one_pos
  | cons c s ih =>
      rw [AllDigits, List.forall_mem_cons] at h
      have digit := digitOf_lt h.1
      have rest := ih h.2
      rw [digitValue_cons, List.length_cons, Nat.pow_succ]
      calc 10 ^ s.length * digitOf c + digitValue s
        _ < 10 ^ s.length * (digitOf c + 1) := by rw [Nat.mul_succ]; omega
        _ ≤ 10 ^ s.length * 10 := Nat.mul_le_mul_left _ digit

/-- The greater multiple decides, whatever is below the unit. -/
theorem mul_add_lt_mul_add_iff {b m n x y : Nat} (hx : x < b) (hy : y < b) :
    b * m + x < b * n + y ↔ m < n ∨ m = n ∧ x < y := by
  obtain less | rfl | greater := Nat.lt_trichotomy m n
  · have step : b * m + b ≤ b * n := Nat.mul_le_mul_left b less
    omega
  · omega
  · have step : b * n + b ≤ b * m := Nat.mul_le_mul_left b greater
    omega

/-- As many digits are in the order of what they write. -/
theorem lt_iff_digitValue_lt {s t : List Char} (hs : AllDigits s) (ht : AllDigits t)
    (h : s.length = t.length) : s < t ↔ digitValue s < digitValue t := by
  induction s generalizing t with
  | nil =>
      rw [List.length_eq_zero_iff.1 h.symm]
      simp
  | cons c s ih =>
      cases t with
      | nil => cases h
      | cons d t =>
          rw [AllDigits, List.forall_mem_cons] at hs ht
          have same : s.length = t.length := Nat.succ.inj h
          have below : digitValue s < 10 ^ t.length := same ▸ digitValue_lt hs.2
          rw [List.cons_lt_cons_iff, ih hs.2 ht.2 same, digitValue_cons, digitValue_cons, same,
            mul_add_lt_mul_add_iff below (digitValue_lt ht.2), digitOf_lt_digitOf_iff hs.1 ht.1,
            digitOf_eq_digitOf_iff hs.1 ht.1]

end Decimal

namespace Text

variable {width m n : Nat}

theorem toList_zeroPadded (width n : Nat) :
    (zeroPadded width n).toList = (Nat.toDigits 10 n).leftpad width '0' :=
  String.toList_ofList

theorem allDigits_zeroPadded (width n : Nat) : Decimal.AllDigits (zeroPadded width n).toList := by
  rw [toList_zeroPadded]
  exact Decimal.allDigits_leftpad width n

theorem zeroPadded_ne_nil (width n : Nat) : (zeroPadded width n).toList ≠ [] := by
  rw [toList_zeroPadded, List.leftpad]
  exact List.append_ne_nil_of_right_ne_nil _ Nat.toDigits_ne_nil

theorem digitValue_zeroPadded (width n : Nat) :
    Decimal.digitValue (zeroPadded width n).toList = n := by
  rw [toList_zeroPadded, Decimal.digitValue_leftpad]

theorem length_zeroPadded (pos : 0 < width) (h : n < 10 ^ width) :
    (zeroPadded width n).toList.length = width := by
  rw [toList_zeroPadded, List.length_leftpad,
    Nat.max_eq_left ((Nat.length_toDigits_le_iff (by decide) pos).2 h)]

/-- Zeros in front do not hide a number. -/
theorem zeroPadded_inj : (zeroPadded width m).toList = (zeroPadded width n).toList ↔ m = n := by
  constructor
  · intro same
    rw [← digitValue_zeroPadded width m, same, digitValue_zeroPadded]
  · rintro rfl
    rfl

theorem zeroPadded_lt_iff (pos : 0 < width) (hm : m < 10 ^ width) (hn : n < 10 ^ width) :
    (zeroPadded width m).toList < (zeroPadded width n).toList ↔ m < n := by
  rw [Decimal.lt_iff_digitValue_lt (allDigits_zeroPadded width m) (allDigits_zeroPadded width n),
    digitValue_zeroPadded, digitValue_zeroPadded]
  rw [length_zeroPadded pos hm, length_zeroPadded pos hn]

/-- Digits are the number that they write, with zeros up to their count. -/
theorem zeroPadded_digitValue {s : List Char} (h : Decimal.AllDigits s) (ne : s ≠ []) :
    (zeroPadded s.length (Decimal.digitValue s)).toList = s := by
  have length := length_zeroPadded (List.length_pos_iff.2 ne) (Decimal.digitValue_lt h)
  have value := digitValue_zeroPadded s.length (Decimal.digitValue s)
  have all := allDigits_zeroPadded s.length (Decimal.digitValue s)
  obtain less | same | greater := lt_trichotomy (zeroPadded s.length _).toList s
  · rw [Decimal.lt_iff_digitValue_lt all h length, value] at less
    exact absurd less (Nat.lt_irrefl _)
  · exact same
  · rw [Decimal.lt_iff_digitValue_lt h all length.symm, value] at greater
    exact absurd greater (Nat.lt_irrefl _)

end Text
end CreditRating

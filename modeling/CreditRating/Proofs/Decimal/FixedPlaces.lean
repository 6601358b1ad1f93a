import CreditRating.Proofs.Binary.Sign
import CreditRating.Proofs.Decimal.ReadBack

/-!
Numbers with a fixed count of places. The text shows the quantity rounded to the grid of its
last place, and it is read as the number nearest to what it shows.
-/

namespace CreditRating
namespace Decimal

open Binary
open Float.Model (UnpackedFloat)
open Float.Model.UnpackedFloat

theorem nearestEven_eq (num : ℕ) {den : ℕ} (h : 0 < den) :
    (nearestEven num den : ℤ) = nearest (num / den) := by
  rw [← (lies_accuracyOfFraction h).nearest]
  rw [nearestEven, accuracyOfFraction]
  by_cases exact : num % den = 0
  · simp [exact, h, Accuracy.roundToNearestEven]
  · rw [if_neg exact]
    obtain lt | eq | gt := lt_trichotomy (2 * (num % den)) den
    · rw [Nat.compare_eq_lt.2 lt]
      simp [lt, Accuracy.roundToNearestEven]
    · rw [Nat.compare_eq_eq.2 eq]
      simp [eq, Accuracy.roundToNearestEven]
    · rw [Nat.compare_eq_gt.2 gt]
      simp [gt.not_gt, gt.ne', Accuracy.roundToNearestEven]

theorem ratio_eq (m : ℕ) (e : ℤ) : ((ratio m e).1 / (ratio m e).2 : ℚ) = m * 2 ^ e := by
  simp only [ratio, Nat.pow_eq]
  push_cast
  rw [pow_toNat two_ne_zero e]
  field_simp

/-- The steps of the last place that a number has, without its sign. -/
def steps (places : ℕ) (x : Float) : ℕ := (nearest (|quantity x| * 10 ^ places)).toNat

/-- What is shown is the size of a number in steps of the last place, rounded. -/
theorem steps_eq (places : ℕ) (x : Float) :
    (steps places x : ℤ) = nearest (|quantity x| * 10 ^ places) :=
  Int.toNat_of_nonneg (le_nearest (by push_cast; positivity))

theorem nearestEven_ratio (m : ℕ) (e : ℤ) (places : ℕ) :
    (nearestEven ((ratio m e).1 * Nat.pow 10 places) (ratio m e).2 : ℤ) =
      nearest (m * 2 ^ e * 10 ^ places) := by
  have pos : 0 < (ratio m e).2 := Nat.two_pow_pos _
  rw [nearestEven_eq _ pos, ← ratio_eq, Nat.pow_eq]
  push_cast
  rw [mul_div_right_comm]

/-- The text of a finite number is its sign and its rounded size. -/
theorem fixed_of_isFinite {x : Float} (h : x.isFinite) (places : ℕ) :
    fixed places x =
      signText .hidden (Parts.isNegativeSign (sign x)) ++ withPoint places (steps places x) := by
  have text : fixed places x = fixedParts .hidden places (.ofUnpacked (unpacked x)) := rfl
  have shown := steps_eq places x
  rw [isFinite_eq] at h
  rw [quantity] at shown
  rw [text, sign]
  generalize steps places x = n at *
  cases hu : unpacked x with
  | notANumber | infinity _ => rw [hu] at h; cases h
  | zero s =>
      have zero : (nearestEven ((ratio 0 0).1 * Nat.pow 10 places) (ratio 0 0).2 : ℤ) = n := by
        rw [nearestEven_ratio, shown, hu, value]
        simp
      rw [← Int.natCast_inj.1 zero]
      rfl
  | finite s m e hm =>
      rw [hu, value, abs_signed, abs_of_pos (value_pos e hm), ← nearestEven_ratio] at shown
      rw [Int.natCast_inj.1 shown]
      rfl

/-- Digits with a point, of which as many stand behind it as there are places. -/
theorem readScaled?_withPoint (places n : ℕ) :
    readScaled? (withPoint places n).toList = some (n, -(places : ℤ)) := by
  have all := allDigits_leftpad (places + 1) n
  have value := digitValue_leftpad (places + 1) n
  have length := le_length_leftpad (places + 1) n
  rw [withPoint]
  generalize (Nat.toDigits 10 n).leftpad (places + 1) '0' = s at *
  by_cases none : places = 0
  · have ne : s ≠ [] := List.length_pos_iff.1 (by omega)
    rw [if_pos none, String.toList_ofList, readScaled?_whole all ne, value, none]
    rfl
  · have whole : s.take (s.length - places) ≠ [] := by
      rw [← List.length_pos_iff, List.length_take]
      omega
    have front : AllDigits (s.take (s.length - places)) :=
      fun c hc => all c (List.mem_of_mem_take hc)
    have back : AllDigits (s.drop (s.length - places)) :=
      fun c hc => all c (List.mem_of_mem_drop hc)
    rw [if_neg none, String.toList_ofList, readScaled?_point front back whole,
      List.take_append_drop, value, List.length_drop]
    congr
    omega

theorem head_withPoint (places n : ℕ) :
    ∃ c t, c.isDigit ∧ (withPoint places n).toList = c :: t := by
  have all := allDigits_leftpad (places + 1) n
  have length := le_length_leftpad (places + 1) n
  rw [withPoint]
  generalize (Nat.toDigits 10 n).leftpad (places + 1) '0' = s at *
  obtain ⟨c, t, rfl⟩ := List.exists_cons_of_ne_nil (List.length_pos_iff.1 (by omega : 0 < s.length))
  have digit : c.isDigit := all c (.head t)
  by_cases none : places = 0
  · exact ⟨c, t, digit, by rw [if_pos none, String.toList_ofList]⟩
  · have whole : (c :: t).length - places = t.length - places + 1 := by
      rw [List.length_cons] at length ⊢
      omega
    refine ⟨c, t.take (t.length - places) ++ '.' :: t.drop (t.length - places), digit, ?_⟩
    rw [if_neg none, String.toList_ofList, whole]
    rfl

theorem quantity_round (c : ℕ) {k : ℤ} (low : -2048 ≤ k) (high : k ≤ 2048) :
    (round c k).isNaN = false ∧ quantity (round c k) = bounded (c * 10 ^ k) := by
  obtain rfl | hc := Nat.eq_zero_or_pos c
  · rw [isNaN_eq, quantity, unpacked_round_zero, Nat.cast_zero, zero_mul, bounded_zero]
    exact ⟨rfl, rfl⟩
  · have rounding := isRounding_ofScientific hc low high
    have number : round c k =
        .ofModel (.pack (UnpackedFloat.ofScientific Float.Model.Format.binary64 c k)) := rfl
    rw [number, isNaN_pack rounding.gives.canonical, rounding.gives.quantity]
    exact ⟨rounding.isNaN, rfl⟩

theorem quantity_withSign (s : Sign) (x : Float) :
    quantity (withSign s x) = signed s (quantity x) := by
  cases s with
  | negative => rw [withSign, quantity, unpacked_neg, value_neg]; rfl
  | positive => rfl

theorem isNaN_withSign (s : Sign) (x : Float) : (withSign s x).isNaN = x.isNaN := by
  cases s with
  | negative =>
      rw [withSign, isNaN_eq, isNaN_eq, unpacked_neg]
      cases unpacked x <;> rfl
  | positive => rfl

/-- A quantity moved to the grid of the last place; a half goes to the even neighbour. -/
def toPlaces (places : ℕ) (q : ℚ) : ℚ := nearest (q * 10 ^ places) / 10 ^ places

theorem toPlaces_mono {places : ℕ} {p q : ℚ} (h : p ≤ q) :
    toPlaces places p ≤ toPlaces places q := by
  have scaled : nearest (p * 10 ^ places) ≤ nearest (q * 10 ^ places) :=
    nearest_mono (mul_le_mul_of_nonneg_right h (by positivity))
  exact div_le_div_of_nonneg_right (by exact_mod_cast scaled) (by positivity)

theorem toPlaces_signed (places : ℕ) (s : Sign) (q : ℚ) :
    toPlaces places (signed s q) = signed s (toPlaces places q) := by
  cases s with
  | negative =>
      simp only [toPlaces, signed]
      rw [neg_mul, nearest_neg]
      push_cast
      exact neg_div _ _
  | positive => rfl

/-- The text of a finite number is read as the number nearest to what the text shows. -/
theorem read?_fixed_of_isFinite {x : Float} (h : x.isFinite) {places : ℕ} (few : places ≤ 2048) :
    ∃ y, read? (fixed places x).toList = some y ∧ y.isNaN = false ∧
      quantity y = bounded (toPlaces places (quantity x)) := by
  obtain ⟨c, t, digit, text⟩ := head_withPoint places (steps places x)
  have scaled := readScaled?_withPoint places (steps places x)
  obtain ⟨number, value⟩ := quantity_round (steps places x) (k := -places) (by omega) (by omega)
  rw [text] at scaled
  refine ⟨_, ?_, (isNaN_withSign (sign x) _).trans number, ?_⟩
  · rw [fixed_of_isFinite h, String.toList_append, text]
    exact read?_signed digit scaled (sign x)
  · have size : ((steps places x : ℕ) : ℚ) = nearest (|quantity x| * 10 ^ places) := by
      exact_mod_cast steps_eq places x
    rw [quantity_withSign, value, size, quantity_eq_signed x, toPlaces_signed, bounded_signed,
      ← quantity_eq_signed x, zpow_neg, zpow_natCast]
    rfl

/-- The other numbers have no places, and their texts are words. -/
theorem fixed_of_not_finite {x : Float} (h : x.isFinite = false) (places : ℕ) :
    fixed places x = plainText x := by
  change fixedParts .hidden places (.ofUnpacked (unpacked x)) =
    plain.ofParts (.ofUnpacked (unpacked x))
  rw [isFinite_eq] at h
  cases hu : unpacked x with
  | zero _ | finite _ _ _ _ => rw [hu] at h; cases h
  | notANumber | infinity _ => rfl

end Decimal
end CreditRating

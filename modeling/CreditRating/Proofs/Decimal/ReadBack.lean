import CreditRating.Proofs.Decimal.Digits
import CreditRating.Proofs.Decimal.Nearest

/-!
Numbers survive writing and reading. The plain text of any number, the infinite
ones and NaN included, is read as that number.
-/

namespace CreditRating
namespace Decimal

open Binary
open Float.Model (UnpackedFloat)
open Float.Model.UnpackedFloat

theorem unpacked_neg (x : Float) : unpacked (-x) = (unpacked x).neg :=
  unpacked_pack_of_fits (fits_unpacked x).neg

theorem toLower_of_isDigit {c : Char} (h : c.isDigit) : c.toLower = c := by
  rw [Char.isDigit, Bool.and_eq_true, decide_eq_true_iff, decide_eq_true_iff] at h
  rw [Char.toLower, dif_neg]
  intro upper
  have nine := UInt32.le_iff_toNat_le.1 h.2
  have letter := UInt32.le_iff_toNat_le.1 upper.1
  have : '9'.val.toNat = 57 := rfl
  have : 'A'.val.toNat = 65 := rfl
  omega

/-- What begins with a digit is none of the words. -/
theorem readUnsigned?_of_digit {c : Char} (h : c.isDigit) (s : List Char) :
    readUnsigned? (c :: s) = (readScaled? (c :: s)).map fun r => round r.1 r.2 := by
  have word {d : Char} (hd : d.isDigit = false) (w : List Char) :
      (c :: s).map Char.toLower ≠ d :: w := by
    intro eq
    rw [List.map_cons, toLower_of_isDigit h] at eq
    rw [(List.cons.inj eq).1, hd] at h
    cases h
  have inf : ¬ ((c :: s).map Char.toLower = "inf".toList ∨
      (c :: s).map Char.toLower = "infinity".toList) := by
    rintro (eq | eq)
    · exact word (d := 'i') rfl _ eq
    · exact word (d := 'i') rfl _ eq
  have nan : ¬ (c :: s).map Char.toLower = "nan".toList := word (d := 'n') rfl _
  simp only [readUnsigned?, if_neg inf, if_neg nan]

def withSign : Sign → Float → Float
  | .negative, x => -x
  | .positive, x => x

/-- A number that is read with its sign in front. -/
theorem read?_signed {c : Char} (h : c.isDigit) {t : List Char} {k : ℕ × ℤ}
    (scaled : readScaled? (c :: t) = some k) (s : Sign) :
    read? ((signText .hidden (Parts.isNegativeSign s)).toList ++ c :: t) =
      some (withSign s (round k.1 k.2)) := by
  have unsigned := readUnsigned?_of_digit h t
  rw [scaled, Option.map_some] at unsigned
  cases s with
  | negative =>
      change (readUnsigned? (c :: t)).map _ = _
      rw [unsigned]
      rfl
  | positive =>
      change read? (c :: t) = _
      simp only [read?, takeSign_of_digit h, unsigned]
      rfl

theorem exists_digit_positionalText {digits : List Char} (h : digits ≠ []) (hd : AllDigits digits)
    (p : ℤ) : ∃ c t, c.isDigit ∧
      (positionalText false digits (p + (digits.length - 1 : ℕ))).toList = c :: t := by
  obtain ⟨whole, fraction, pointed, text⟩ := toList_positionalText false h hd p
  cases whole with
  | nil => exact absurd rfl pointed.whole_ne
  | cons c whole =>
      have digit : c.isDigit := pointed.whole_digits c (.head _)
      rw [text]
      split
      · exact ⟨c, whole ++ [], digit, rfl⟩
      · exact ⟨c, whole ++ '.' :: fraction, digit, rfl⟩

/-- The coefficient and the power that are read stand for the same quantity. -/
theorem scaled_eq (c : ℕ) (p : ℤ) :
    ((c * 10 ^ p.toNat : ℕ) : ℚ) * 10 ^ (-((-p).toNat : ℤ)) = c * 10 ^ p := by
  push_cast
  rw [pow_toNat (by norm_num : (10 : ℚ) ≠ 0) p, zpow_neg, zpow_natCast]
  field_simp

/-- The shortest decimal rounds to the number it was made for. -/
theorem rounded_shortest {m : ℕ} {e : ℤ} (hm : 0 < m) (fits : Fits (.finite .positive m e hm))
    (tie : Tie) : rounded (shortest tie m e).value = m * 2 ^ e :=
  rounded_of_contains fits.1 (Basin.shortest_spec hm fits.1.least tie).1 hm

theorem pos_of_rounded {m c : ℕ} {e k : ℤ} (hm : 0 < m)
    (h : rounded (c * 10 ^ k) = m * 2 ^ e) : 0 < c := by
  refine Nat.pos_of_ne_zero fun zero => (value_pos e hm).ne ?_
  rw [← h, zero, Nat.cast_zero, zero_mul, rounded_zero]

/-- However the shortest decimal of a number is scaled, it is rounded to the number. -/
theorem unpacked_round_of_value {m : ℕ} {e : ℤ} (hm : 0 < m)
    (fits : Fits (.finite .positive m e hm)) (tie : Tie) {c : ℕ} {k : ℤ} (low : -2048 ≤ k)
    (high : k ≤ 2048) (value : (c : ℚ) * 10 ^ k = (shortest tie m e).value) :
    unpacked (round c k) = .finite .positive m e hm := by
  have rounds : rounded (c * 10 ^ k) = m * 2 ^ e := value ▸ rounded_shortest hm fits tie
  exact unpacked_round (pos_of_rounded hm rounds) low high fits rounds

/-- The shortest decimal of a number is positive, and its power of ten is one that the
model computes. -/
theorem shortest_bounds {m : ℕ} {e : ℤ} (hm : 0 < m) (fits : Fits (.finite .positive m e hm))
    (tie : Tie) : 0 < (shortest tie m e).coefficient ∧
      -1076 ≤ (shortest tie m e).power ∧ (shortest tie m e).power ≤ 1024 := by
  obtain ⟨contains, least⟩ := Basin.shortest_spec hm fits.1.least tie
  change (Basin.around m e).Contains (shortest tie m e).value at contains
  have pos : 0 < (shortest tie m e).coefficient :=
    pos_of_rounded hm (rounded_shortest hm fits tie)
  refine ⟨pos, least, ?_⟩
  obtain ⟨⟨-, high⟩, -⟩ := Basin.contains_around contains
  by_contra large
  have below : (shortest tie m e).value < 2 ^ (1024 : ℤ) := by
    have hm53 : (m : ℚ) + 1 ≤ 2 ^ (53 : ℤ) := by exact_mod_cast fits.1.lt
    have scaled : (shortest tie m e).value / 2 ^ e < 2 ^ (53 : ℤ) := by linarith
    calc (shortest tie m e).value < 2 ^ (53 : ℤ) * 2 ^ e := (div_lt_iff₀ (two_zpow_pos e)).1 scaled
      _ = 2 ^ (53 + e) := (two_zpow_add _ _).symm
      _ ≤ 2 ^ (1024 : ℤ) := two_zpow_le (by have := fits.2; omega)
  have above : (10 : ℚ) ^ (1024 : ℤ) ≤ (shortest tie m e).value := by
    have one : (1 : ℚ) ≤ (shortest tie m e).coefficient := by exact_mod_cast pos
    calc (10 : ℚ) ^ (1024 : ℤ) ≤ 10 ^ (shortest tie m e).power :=
          zpow_le_zpow_right₀ (by norm_num) (by omega)
      _ ≤ (shortest tie m e).coefficient * 10 ^ (shortest tie m e).power :=
          le_mul_of_one_le_left (by positivity) one
  have : (2 : ℚ) ^ (1024 : ℤ) ≤ 10 ^ (1024 : ℤ) :=
    zpow_le_zpow_left₀ (by norm_num) (by norm_num) (by norm_num)
  exact absurd (below.trans_le (this.trans above)) (lt_irrefl _)

/-- The shortest decimal of a number is rounded to the number. -/
theorem unpacked_round_shortest {m : ℕ} {e : ℤ} (hm : 0 < m)
    (fits : Fits (.finite .positive m e hm)) (tie : Tie) :
    unpacked (round ((shortest tie m e).coefficient * 10 ^ (shortest tie m e).power.toNat)
      (-((-(shortest tie m e).power).toNat : ℤ))) = .finite .positive m e hm := by
  obtain ⟨-, least, high⟩ := shortest_bounds hm fits tie
  refine unpacked_round_of_value hm fits tie (by omega) (by omega) ?_
  rw [scaled_eq]
  rfl

/-- A positive number with a sign is known by its parts. -/
theorem withSign_eq {x y : Float} {s : Sign} {u : UnpackedFloat} (hx : unpacked x = u)
    (negative : s = .negative → unpacked y = u.neg) (positive : s = .positive → unpacked y = u) :
    withSign s x = y := by
  refine unpacked_injective ?_
  cases s with
  | negative => rw [withSign, unpacked_neg, hx, negative rfl]
  | positive => rw [withSign, hx, positive rfl]

theorem toList_plain_finite (s : Sign) {m : ℕ} (e : ℤ) (hm : 0 < m) :
    (plain.ofParts (.ofUnpacked (.finite s m e hm))).toList =
      (signText .hidden (Parts.isNegativeSign s)).toList ++
        (positionalText false (Nat.toDigits 10 (shortest plain.tie m e).coefficient)
          ((shortest plain.tie m e).power +
            ((Nat.toDigits 10 (shortest plain.tie m e).coefficient).length - 1 : ℕ))).toList := by
  rw [← String.toList_append]
  refine congrArg String.toList ?_
  simp only [Notation.ofParts, Parts.ofUnpacked, if_neg hm.ne']
  rfl

theorem read?_plain_finite {s : Sign} {m : ℕ} {e : ℤ} {hm : 0 < m} {x : Float}
    (h : unpacked x = .finite s m e hm) :
    read? (plain.ofParts (.ofUnpacked (.finite s m e hm))).toList = some x := by
  have fits : Fits (.finite s m e hm) := h ▸ fits_unpacked x
  have digits := allDigits_toDigits (shortest plain.tie m e).coefficient
  have scaled := readScaled?_positionalText Nat.toDigits_ne_nil digits
    (shortest plain.tie m e).power
  obtain ⟨c, t, hc, ht⟩ := exists_digit_positionalText Nat.toDigits_ne_nil digits
    (shortest plain.tie m e).power
  rw [ht, digitValue_toDigits] at scaled
  rw [toList_plain_finite, ht, read?_signed hc scaled s]
  refine congrArg some (withSign_eq (unpacked_round_shortest hm fits plain.tie) ?_ ?_)
  · rintro rfl
    exact h
  · rintro rfl
    exact h

/-- Every number is read back from its shortest text, with its sign and all its bits. -/
theorem read?_plainText (x : Float) : read? (plainText x).toList = some x := by
  have text : plainText x = plain.ofParts (.ofUnpacked (unpacked x)) := rfl
  rw [text]
  cases hu : unpacked x with
  | notANumber =>
      have same : notANumber = x := unpacked_injective (hu ▸ rfl)
      exact congrArg some same
  | infinity s =>
      have same : withSign s infinity = x := by
        refine withSign_eq (u := .infinity .positive) rfl ?_ ?_ <;> rintro rfl <;> exact hu
      rw [← same]
      cases s <;> rfl
  | zero s =>
      have same : withSign s (round 0 0) = x := by
        refine withSign_eq (unpacked_round_zero 0) ?_ ?_ <;> rintro rfl <;> exact hu
      rw [← same]
      cases s <;> rfl
  | finite s m e hm => exact read?_plain_finite hu

end Decimal
end CreditRating

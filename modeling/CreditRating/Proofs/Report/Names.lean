import CreditRating.Report
import CreditRating.Proofs.Text.ByteOrder
import CreditRating.Proofs.Text.FixedWidth

/-!
The names of reports. All parts of a name but the year have fixed widths, so that names of one
length have years of one length, and the year is read back with its sign. Hence a name tells the
minute in which it was made. With years of four digits the names are in the order of time.
-/

namespace CreditRating
namespace Report

open Std.Time (PlainDate PlainDateTime PlainTime)
open Text (zeroPadded)

/-- A year is read back from its text, with its sign. -/
theorem readInt?_yearText (year : ℤ) : Decimal.readInt? (yearText year).toList = some year := by
  have all := Text.allDigits_zeroPadded 4 year.natAbs
  have ne := Text.zeroPadded_ne_nil 4 year.natAbs
  have value := Text.digitValue_zeroPadded 4 year.natAbs
  have unsigned := Decimal.takeSign_of_digits all ne []
  rw [List.append_nil] at unsigned
  rw [yearText, String.toList_append]
  generalize (zeroPadded 4 year.natAbs).toList = digits at *
  have minus : Decimal.takeSign ("-".toList ++ digits) = (true, digits) := rfl
  have plus : Decimal.takeSign ("+".toList ++ digits) = (false, digits) := rfl
  split
  · rw [Decimal.readInt?_of_takeSign minus all ne, value, if_pos rfl]
    exact congrArg some (by omega)
  · split
    · rw [Decimal.readInt?_of_takeSign plus all ne, value, if_neg Bool.false_ne_true]
      exact congrArg some (by omega)
    · rw [String.toList_empty, List.nil_append, Decimal.readInt?_of_takeSign unsigned all ne, value,
        if_neg Bool.false_ne_true]
      exact congrArg some (by omega)

theorem yearText_inj {year year' : ℤ} :
    (yearText year).toList = (yearText year').toList ↔ year = year' := by
  constructor
  · intro same
    have read := readInt?_yearText year
    rw [same, readInt?_yearText] at read
    exact (Option.some.inj read).symm
  · rintro rfl
    rfl

namespace Moment

variable {m m' : Moment}

def FourDigitYear (m : Moment) : Prop := 0 ≤ m.year ∧ m.year ≤ 9999

instance (m : Moment) : Decidable m.FourDigitYear := inferInstanceAs (Decidable (_ ∧ _))

theorem FourDigitYear.yearText_eq (h : m.FourDigitYear) :
    yearText m.year = zeroPadded 4 m.year.toNat := by
  obtain ⟨low, high⟩ := h
  have size : m.year.natAbs = m.year.toNat := by omega
  rw [yearText, if_neg (by omega), if_neg (by omega), size, String.empty_append]

theorem FourDigitYear.lt (h : m.FourDigitYear) : m.year.toNat < 10 ^ 4 := by
  obtain ⟨low, high⟩ := h
  omega

theorem FourDigitYear.length_yearText (h : m.FourDigitYear) :
    (yearText m.year).toList.length = 4 := by
  rw [h.yearText_eq, Text.length_zeroPadded (by decide) h.lt]

theorem FourDigitYear.yearText_lt_iff (h : m.FourDigitYear) (h' : m'.FourDigitYear) :
    (yearText m.year).toList < (yearText m'.year).toList ↔ m.year < m'.year := by
  rw [h.yearText_eq, h'.yearText_eq, Text.zeroPadded_lt_iff (by decide) h.lt h'.lt]
  obtain ⟨low, -⟩ := h
  obtain ⟨low', -⟩ := h'
  omega

/-- The fields between the year and the seconds have two digits. -/
structure TwoDigits (m : Moment) : Prop where
  month : m.month < 100
  day : m.day < 100
  hour : m.hour < 100
  minute : m.minute < 100

/-- The fields down to the minute, the greatest one first. -/
def toMinute (m : Moment) : List ℤ := [m.year, m.month, m.day, m.hour, m.minute]

end Moment

def nameParts (m : Moment) (number : ℕ) : List (List Char) :=
  ["credit_ratings_".toList, (yearText m.year).toList, (zeroPadded 2 m.month).toList,
    (zeroPadded 2 m.day).toList, "_".toList, (zeroPadded 2 m.hour).toList,
    (zeroPadded 2 m.minute).toList, "_".toList, (zeroPadded 6 (number % 1000000)).toList,
    ".csv".toList]

def nameValues (m : Moment) (number : ℕ) : List ℤ := m.toMinute ++ [((number % 1000000 : ℕ) : ℤ)]

theorem flatten_nameParts (m : Moment) (number : ℕ) :
    (nameParts m number).flatten = (fileName m number).toList := by
  simp only [nameParts, fileName, nameOf, stamp, String.toList_append, List.flatten_cons,
    List.flatten_nil, List.append_assoc, List.append_nil]

section

variable {m m' : Moment} {number number' : ℕ}

theorem nameParts_inj :
    nameParts m number = nameParts m' number' ↔ nameValues m number = nameValues m' number' := by
  simp only [nameParts, nameValues, Moment.toMinute, List.cons_append, List.nil_append,
    List.cons.injEq, yearText_inj, Text.zeroPadded_inj, Nat.cast_inj, true_and, and_true]

variable (h : m.TwoDigits) (h' : m'.TwoDigits)
include h

theorem widths_nameParts (number : ℕ) :
    (nameParts m number).map List.length =
      [15, (yearText m.year).toList.length, 2, 2, 1, 2, 2, 1, 6, 4] := by
  have two {n : ℕ} (small : n < 100) : (zeroPadded 2 n).toList.length = 2 :=
    Text.length_zeroPadded (by decide) small
  have six : (zeroPadded 6 (number % 1000000)).toList.length = 6 :=
    Text.length_zeroPadded (by decide) (Nat.mod_lt number (by decide))
  simp only [nameParts, List.map_cons, List.map_nil, two h.month, two h.day, two h.hour,
    two h.minute, six]
  rfl

include h'

/-- Whatever the years are: names of one length have years of one length. -/
theorem fileName_inj :
    fileName m number = fileName m' number' ↔ nameValues m number = nameValues m' number' := by
  rw [← nameParts_inj, ← String.toList_inj, ← flatten_nameParts, ← flatten_nameParts]
  constructor
  · intro same
    have total := congrArg List.length same
    rw [List.length_flatten, List.length_flatten, widths_nameParts h, widths_nameParts h'] at total
    simp only [List.sum_cons, List.sum_nil] at total
    have years : (yearText m.year).toList.length = (yearText m'.year).toList.length := by omega
    rw [List.eq_iff_flatten_eq, widths_nameParts h, widths_nameParts h', years]
    exact ⟨same, rfl⟩
  · exact congrArg List.flatten

variable (y : m.FourDigitYear) (y' : m'.FourDigitYear)
include y y'

theorem nameParts_lt_iff :
    nameParts m number < nameParts m' number' ↔ nameValues m number < nameValues m' number' := by
  have two {a b : ℕ} (ha : a < 100) (hb : b < 100) :
      (zeroPadded 2 a).toList < (zeroPadded 2 b).toList ↔ a < b :=
    Text.zeroPadded_lt_iff (by decide) ha hb
  have six : (zeroPadded 6 (number % 1000000)).toList < (zeroPadded 6 (number' % 1000000)).toList ↔
      number % 1000000 < number' % 1000000 :=
    Text.zeroPadded_lt_iff (by decide) (Nat.mod_lt _ (by decide)) (Nat.mod_lt _ (by decide))
  simp only [nameParts, nameValues, Moment.toMinute, List.cons_append, List.nil_append,
    List.cons_lt_cons_iff, List.lt_irrefl, y.yearText_lt_iff y', two h.month h'.month,
    two h.day h'.day, two h.hour h'.hour, two h.minute h'.minute, six, yearText_inj,
    Text.zeroPadded_inj, Nat.cast_lt, Nat.cast_inj, and_false, or_false, false_or, true_and]

/-- Names with years of one length are in the order of their values. -/
theorem bytes_fileName_lt_iff :
    Utf8.bytes (fileName m number) < Utf8.bytes (fileName m' number') ↔
      nameValues m number < nameValues m' number' := by
  have widths : (nameParts m number).map List.length = (nameParts m' number').map List.length := by
    rw [widths_nameParts h, widths_nameParts h', y.length_yearText, y'.length_yearText]
  rw [← Utf8.lt_iff_bytes_lt, String.lt_iff, ← flatten_nameParts, ← flatten_nameParts,
    flatten_lt_flatten_iff widths, nameParts_lt_iff h h' y y']

end

section

variable {t t' : PlainDateTime}

def SameMinute (t t' : PlainDateTime) : Prop :=
  t.date = t'.date ∧ t.time.hour = t'.time.hour ∧ t.time.minute = t'.time.minute

instance (t t' : PlainDateTime) : Decidable (SameMinute t t') :=
  inferInstanceAs (Decidable (_ ∧ _))

theorem twoDigits_momentOf (t : PlainDateTime) : (momentOf t).TwoDigits := by
  have month := t.date.month.property
  have day := t.date.day.property
  have hour := t.time.hour.property
  have minute := t.time.minute.property
  constructor <;> simp only [momentOf] <;> omega

theorem toMinute_momentOf (t : PlainDateTime) :
    (momentOf t).toMinute = [(momentOf t).year, t.date.month.val, t.date.day.val, t.time.hour.val,
      t.time.minute.val] := by
  have month := t.date.month.property.1
  have day := t.date.day.property.1
  have hour := t.time.hour.property.1
  have minute := t.time.minute.property.1
  simp only [Moment.toMinute, momentOf, List.cons.injEq, true_and, and_true]
  omega

/-- The fields down to the minute tell one minute from another. -/
theorem toMinute_momentOf_inj :
    (momentOf t).toMinute = (momentOf t').toMinute ↔ SameMinute t t' := by
  rw [toMinute_momentOf, toMinute_momentOf, SameMinute, PlainDate.ext_iff]
  simp only [List.cons.injEq, and_true, and_assoc]
  exact and_congr Iff.rfl (and_congr Subtype.ext_iff.symm (and_congr Subtype.ext_iff.symm
    (and_congr Subtype.ext_iff.symm Subtype.ext_iff.symm)))

/-- Beyond the minute nothing decides the order of moments of different minutes. -/
theorem compare_eq_lt_iff (other : ¬ SameMinute t t') :
    compare t t' = .lt ↔ (momentOf t).toMinute < (momentOf t').toMinute := by
  have year : compare t.date.year t'.date.year = compare (momentOf t).year (momentOf t').year := rfl
  have month : compare t.date.month t'.date.month =
      compare t.date.month.val t'.date.month.val := rfl
  have day : compare t.date.day t'.date.day = compare t.date.day.val t'.date.day.val := rfl
  have hour : compare t.time.hour t'.time.hour = compare t.time.hour.val t'.time.hour.val := rfl
  have minute : compare t.time.minute t'.time.minute =
      compare t.time.minute.val t'.time.minute.val := rfl
  rw [← toMinute_momentOf_inj] at other
  simp only [toMinute_momentOf, List.cons.injEq, and_true] at other
  simp only [toMinute_momentOf, PlainDateTime.compare_def, PlainDate.compare_def,
    PlainTime.compare_def, compareLex, compareOn, Ordering.then_eq_lt, Ordering.then_eq_eq, year,
    month, day, hour, minute, Int.compare_eq_lt, Int.compare_eq_eq, List.cons_lt_cons_iff,
    List.not_lt_nil, and_false, or_false]
  generalize (compare t.time.second _ = _ ∨ _) = below
  by_cases h : below
  · simp only [h, and_true]
    omega
  · simp only [h, and_false, or_false]
    omega

end

/-- Two reports have one name just if they are made in one minute and their numbers end with the
same six digits. In different minutes of the years 0 to 9999 the names are in the order of time,
byte by byte. Every six digits are those of a number. -/
theorem fileName_of_dateTimes (t t' : PlainDateTime) (number number' : ℕ) :
    (fileName (momentOf t) number = fileName (momentOf t') number' ↔
      SameMinute t t' ∧ number % 1000000 = number' % 1000000) ∧
    ((momentOf t).FourDigitYear → (momentOf t').FourDigitYear → ¬ SameMinute t t' →
      (Utf8.bytes (fileName (momentOf t) number) < Utf8.bytes (fileName (momentOf t') number') ↔
        compare t t' = .lt)) ∧
    ∀ digits, Decimal.AllDigits digits → digits.length = 6 →
      ∃ n < 1000000, fileName (momentOf t) n =
        nameOf (stamp (momentOf t) ++ "_" ++ String.ofList digits) := by
  have short := twoDigits_momentOf t
  have short' := twoDigits_momentOf t'
  have length : (momentOf t).toMinute.length = (momentOf t').toMinute.length := rfl
  refine ⟨?_, ?_, ?_⟩
  · have last : [((number % 1000000 : ℕ) : ℤ)] = [((number' % 1000000 : ℕ) : ℤ)] ↔
        number % 1000000 = number' % 1000000 := by
      rw [List.singleton_inj, Nat.cast_inj]
    rw [fileName_inj short short', nameValues, nameValues,
      List.append_eq_append_iff_of_size_eq_left length, toMinute_momentOf_inj, last]
  · intro y y' other
    rw [bytes_fileName_lt_iff short short' y y', compare_eq_lt_iff other, nameValues, nameValues,
      append_lt_append_iff length, toMinute_momentOf_inj, or_iff_left fun same => other same.1]
  · intro digits all six
    have ne : digits ≠ [] := List.length_pos_iff.1 (by omega)
    have small : Decimal.digitValue digits < 1000000 := by
      have below := Decimal.digitValue_lt all
      rwa [six] at below
    have text : zeroPadded 6 (Decimal.digitValue digits) = String.ofList digits := by
      have padded := Text.zeroPadded_digitValue all ne
      rw [← String.toList_inj, String.toList_ofList, ← six, padded]
    exact ⟨Decimal.digitValue digits, small, by rw [fileName, Nat.mod_eq_of_lt small, text]⟩

/-- The last second of the year 999. -/
def oldYear : PlainDateTime := ⟨⟨999, 12, 31, by decide⟩, ⟨23, 59, 59, 0⟩⟩

def newYear : PlainDateTime := ⟨⟨1000, 1, 1, by decide⟩, ⟨0, 0, 0, 0⟩⟩

theorem fileName_of_dateTimes_newYear :
    fileName (momentOf oldYear) 999999 = "credit_ratings_09991231_2359_999999.csv" ∧
    fileName (momentOf newYear) 7 = "credit_ratings_10000101_0000_000007.csv" ∧
    (momentOf oldYear).FourDigitYear ∧ (momentOf newYear).FourDigitYear ∧
    ¬ SameMinute oldYear newYear ∧ compare oldYear newYear = .lt ∧
    fileName (momentOf oldYear) 999999 ≠ fileName (momentOf newYear) 7 ∧
    Utf8.bytes (fileName (momentOf oldYear) 999999) < Utf8.bytes (fileName (momentOf newYear) 7) ∧
    Decimal.AllDigits "000042".toList ∧
    ∃ n < 1000000, fileName (momentOf oldYear) n =
      nameOf (stamp (momentOf oldYear) ++ "_" ++ String.ofList "000042".toList) := by
  have old : (momentOf oldYear).FourDigitYear := by decide
  have new : (momentOf newYear).FourDigitYear := by decide
  have other : ¬ SameMinute oldYear newYear := by decide
  have before : compare oldYear newYear = .lt := by decide
  have digits : Decimal.AllDigits "000042".toList :=
    List.all_eq_true.1 (by decide : "000042".toList.all Char.isDigit = true)
  obtain ⟨same, order, drawn⟩ := fileName_of_dateTimes oldYear newYear 999999 7
  exact ⟨by decide, by decide, old, new, other, before, fun h => other (same.1 h).1,
    (order old new other).2 before, digits, drawn _ digits rfl⟩

/-- Behind the year 9999 the sign puts names first. -/
example : Utf8.bytes (fileName ⟨10000, 1, 1, 0, 0, 0⟩ 0) <
    Utf8.bytes (fileName ⟨9999, 12, 31, 23, 59, 59⟩ 0) := by decide

end Report
end CreditRating

import CreditRating.Proofs.Text.Utf8
import Mathlib.Algebra.Order.Ring.Nat
import Mathlib.Data.Char
import Mathlib.Data.List.Lex

/-!
The order of the code points is the order of the UTF-8 bytes. A greater character has a greater
leading byte or, below an equal one, a greater six-bit group, and no character's bytes begin
those of another, so the first difference of two texts is decided by the bytes alike.
-/

namespace CreditRating
namespace Utf8

def bytes (s : String) : List UInt8 := encode s.toList

theorem cons_lt_cons {m n : Nat} {s t : List UInt8} (below : n < 256)
    (h : m < n ∨ m = n ∧ s < t) : UInt8.ofNat m :: s < UInt8.ofNat n :: t := by
  rw [List.cons_lt_cons_iff, UInt8.lt_iff_toNat_lt]
  obtain less | ⟨rfl, rest⟩ := h
  · rw [toNat_ofNat below, toNat_ofNat (Nat.lt_trans less below)]
    exact .inl less
  · exact .inr ⟨rfl, rest⟩

/-- A number as a leading byte and so many six-bit groups below it. -/
def groups (lead : Nat) : Nat → Nat → List UInt8
  | 0, n => [UInt8.ofNat (n + lead)]
  | k + 1, n => groups lead k (n / 64) ++ [UInt8.ofNat (n % 64 + 0x80)]

theorem groups_eq_cons (lead k n : Nat) :
    ∃ t, groups lead k n = UInt8.ofNat (n / 64 ^ k + lead) :: t := by
  induction k generalizing n with
  | zero => exact ⟨[], by rw [groups, Nat.pow_zero, Nat.div_one]⟩
  | succ k ih =>
      obtain ⟨t, h⟩ := ih (n / 64)
      refine ⟨t ++ [UInt8.ofNat (n % 64 + 0x80)], ?_⟩
      rw [groups, h, Nat.div_div_eq_div_mul, ← Nat.pow_succ']
      rfl

theorem groups_append_lt_of_lead {lead lead' k k' m n : Nat} (below : n / 64 ^ k' + lead' < 256)
    (h : m / 64 ^ k + lead < n / 64 ^ k' + lead') (s t : List UInt8) :
    groups lead k m ++ s < groups lead' k' n ++ t := by
  obtain ⟨u, hu⟩ := groups_eq_cons lead k m
  obtain ⟨v, hv⟩ := groups_eq_cons lead' k' n
  rw [hu, hv]
  exact cons_lt_cons below (.inl h)

/-- Of two numbers in as many groups the bytes are in the order of the numbers, whatever
follows them. -/
theorem groups_append_lt {lead k m n : Nat} (below : n / 64 ^ k + lead < 256) (h : m < n)
    (s t : List UInt8) : groups lead k m ++ s < groups lead k n ++ t := by
  induction k generalizing m n s t with
  | zero =>
      rw [Nat.pow_zero, Nat.div_one] at below
      exact cons_lt_cons below (.inl (by omega))
  | succ k ih =>
      rw [groups, groups, List.append_assoc, List.append_assoc]
      obtain less | same := Nat.lt_or_eq_of_le (Nat.div_le_div_right (c := 64) (Nat.le_of_lt h))
      · refine ih ?_ less _ _
        rwa [Nat.div_div_eq_div_mul, ← Nat.pow_succ']
      · rw [same]
        exact List.append_left_lt (cons_lt_cons (by omega) (.inl (by omega)))

/-- How many groups a character has, and above which byte the leading one starts. -/
theorem encodeChar_eq_groups (c : Char) :
    (c.toNat < 0x80 ∧ String.utf8EncodeChar c = groups 0 0 c.toNat) ∨
    (0x80 ≤ c.toNat ∧ c.toNat < 0x800 ∧ String.utf8EncodeChar c = groups 0xC0 1 c.toNat) ∨
    (0x800 ≤ c.toNat ∧ c.toNat < 0x10000 ∧ String.utf8EncodeChar c = groups 0xE0 2 c.toNat) ∨
    (0x10000 ≤ c.toNat ∧ String.utf8EncodeChar c = groups 0xF0 3 c.toNat) := by
  obtain ⟨h, e⟩ | ⟨h, h', e⟩ | ⟨h, h', e⟩ | ⟨h, e⟩ := encodeChar_cases c
  · exact .inl ⟨h, e⟩
  · exact .inr (.inl ⟨h, h', e⟩)
  · refine .inr (.inr (.inl ⟨h, h', ?_⟩))
    simp [e, groups, Nat.div_div_eq_div_mul]
  · refine .inr (.inr (.inr ⟨h, ?_⟩))
    simp [e, groups, Nat.div_div_eq_div_mul]

/-- The character that comes first has the bytes that come first. -/
theorem encodeChar_append_lt {c d : Char} (h : c < d) (s t : List UInt8) :
    String.utf8EncodeChar c ++ s < String.utf8EncodeChar d ++ t := by
  have less : c.toNat < d.toNat := h
  have top := toNat_lt d
  obtain ⟨hc, ec⟩ | ⟨hc, hc', ec⟩ | ⟨hc, hc', ec⟩ | ⟨hc, ec⟩ := encodeChar_eq_groups c <;>
    obtain ⟨hd, ed⟩ | ⟨hd, hd', ed⟩ | ⟨hd, hd', ed⟩ | ⟨hd, ed⟩ := encodeChar_eq_groups d <;>
    rw [ec, ed]
  -- With as many groups the numbers decide, with more of them the leading byte.
  all_goals
    first
    | exact groups_append_lt (by omega) less s t
    | exact groups_append_lt_of_lead (by omega) (by omega) s t

/-- The order of texts is that of their bytes. -/
theorem encode_lt_encode {s t : List Char} (h : s < t) : encode s < encode t := by
  induction h with
  | @nil c t =>
      rw [encode_nil, encode_cons]
      obtain ⟨b, bs, e⟩ := List.exists_cons_of_ne_nil (String.utf8EncodeChar_ne_nil (c := c))
      rw [e]
      exact .nil
  | @cons c s t _ ih =>
      rw [encode_cons, encode_cons]
      exact List.append_left_lt ih
  | @rel c s d t less =>
      rw [encode_cons, encode_cons]
      exact encodeChar_append_lt less _ _

/-- Texts are in the order of their bytes. -/
theorem lt_iff_bytes_lt {s t : String} : s < t ↔ bytes s < bytes t := by
  have forward {u v : String} (h : u < v) : bytes u < bytes v :=
    encode_lt_encode (String.lt_iff.1 h)
  refine ⟨forward, fun h => Decidable.byContradiction fun not => ?_⟩
  by_cases same : s = t
  · rw [same] at h
    exact List.lt_irrefl _ h
  · have greater : t < s := Decidable.byContradiction fun not' =>
      same (String.le_antisymm (String.not_lt.1 not') (String.not_lt.1 not))
    exact List.lt_asymm h (forward greater)

end Utf8
end CreditRating

import CreditRating.Text.Utf8
import Mathlib.Data.Option.Basic

/-!
UTF-8 read back. The bytes of a character are found again at the head of any
bytes, so the bytes of a text are decoded to that text. A character of ASCII is
only read where its byte stands.
-/

namespace CreditRating
namespace Utf8

theorem scalar?_toNat {least : Nat} {c : Char} (h : least ≤ c.toNat) :
    scalar? least c.toNat = some c := by
  have valid : c.toNat.isValidChar := c.valid
  rw [scalar?, dif_pos valid, if_pos h]
  exact congrArg some (Char.ext (UInt32.toNat_inj.1 rfl))

theorem toNat_ofNat {n : Nat} (h : n < 256) : (UInt8.ofNat n).toNat = n := by
  rw [UInt8.toNat_ofNat']
  exact Nat.mod_eq_of_lt h

theorem tail?_ofNat {n : Nat} (h : n < 64) : tail? (UInt8.ofNat (n + 0x80)) = some n := by
  rw [tail?, toNat_ofNat (by omega), if_pos (by omega), Nat.add_sub_cancel]

theorem pair?_eq {a b : UInt8} {i j : Nat} (ha : a.toNat = i + 0xC0) (hi : i < 0x20)
    (hb : tail? b = some j) : pair? a b = scalar? 0x80 (i * 0x40 + j) := by
  have below : i + 0xC0 < 0xE0 := by omega
  simp [pair?, ha, hb, guard, below]

theorem pair?_eq_none {a : UInt8} (h : 0xE0 ≤ a.toNat) (b : UInt8) : pair? a b = none := by
  have : ¬ (0xC0 ≤ a.toNat ∧ a.toNat < 0xE0) := by omega
  simp [pair?, guard, this]

theorem triple?_eq {a b c : UInt8} {i j k : Nat} (ha : a.toNat = i + 0xE0) (hi : i < 0x10)
    (hb : tail? b = some j) (hc : tail? c = some k) :
    triple? a b c = scalar? 0x800 ((i * 0x40 + j) * 0x40 + k) := by
  have below : i + 0xE0 < 0xF0 := by omega
  simp [triple?, ha, hb, hc, guard, below]

theorem triple?_eq_none {a : UInt8} (h : 0xF0 ≤ a.toNat) (b c : UInt8) : triple? a b c = none := by
  have : ¬ (0xE0 ≤ a.toNat ∧ a.toNat < 0xF0) := by omega
  simp [triple?, guard, this]

theorem quadruple?_eq {a b c d : UInt8} {i j k l : Nat} (ha : a.toNat = i + 0xF0) (hi : i < 8)
    (hb : tail? b = some j) (hc : tail? c = some k) (hd : tail? d = some l) :
    quadruple? a b c d = scalar? 0x10000 (((i * 0x40 + j) * 0x40 + k) * 0x40 + l) := by
  have below : i + 0xF0 < 0xF8 := by omega
  simp [quadruple?, ha, hb, hc, hd, guard, below]

theorem toNat_lt (c : Char) : c.toNat < 0x110000 := by
  obtain h | h := c.valid
  · exact Nat.lt_trans h (by omega)
  · exact h.2

/-- The bytes of a character are its code point in six-bit groups below a leading byte. -/
theorem encodeChar_cases (c : Char) :
    (c.toNat < 0x80 ∧ String.utf8EncodeChar c = [UInt8.ofNat c.toNat]) ∨
    (0x80 ≤ c.toNat ∧ c.toNat < 0x800 ∧ String.utf8EncodeChar c =
      [UInt8.ofNat (c.toNat / 64 + 0xC0), UInt8.ofNat (c.toNat % 64 + 0x80)]) ∨
    (0x800 ≤ c.toNat ∧ c.toNat < 0x10000 ∧ String.utf8EncodeChar c =
      [UInt8.ofNat (c.toNat / 4096 + 0xE0), UInt8.ofNat (c.toNat / 64 % 64 + 0x80),
        UInt8.ofNat (c.toNat % 64 + 0x80)]) ∨
    (0x10000 ≤ c.toNat ∧ String.utf8EncodeChar c =
      [UInt8.ofNat (c.toNat / 262144 + 0xF0), UInt8.ofNat (c.toNat / 4096 % 64 + 0x80),
        UInt8.ofNat (c.toNat / 64 % 64 + 0x80), UInt8.ofNat (c.toNat % 64 + 0x80)]) := by
  have top := toNat_lt c
  have val : c.val.toNat = c.toNat := rfl
  simp only [String.utf8EncodeChar, val]
  by_cases one : c.toNat ≤ 0x7F
  · exact .inl ⟨by omega, by rw [if_pos one]⟩
  · by_cases two : c.toNat ≤ 0x7FF
    · refine .inr (.inl ⟨by omega, by omega, ?_⟩)
      rw [if_neg one, if_pos two, Nat.mod_eq_of_lt (by omega : c.toNat / 64 < 32)]
    · by_cases three : c.toNat ≤ 0xFFFF
      · refine .inr (.inr (.inl ⟨by omega, by omega, ?_⟩))
        rw [if_neg one, if_neg two, if_pos three, Nat.mod_eq_of_lt (by omega : c.toNat / 4096 < 16)]
      · refine .inr (.inr (.inr ⟨by omega, ?_⟩))
        rw [if_neg one, if_neg two, if_neg three,
          Nat.mod_eq_of_lt (by omega : c.toNat / 262144 < 8)]

theorem split_encodeChar (c : Char) (s : List UInt8) :
    split (String.utf8EncodeChar c ++ s) = push c (split s) := by
  have top := toNat_lt c
  have tail (n : Nat) : tail? (UInt8.ofNat (n % 64 + 0x80)) = some (n % 64) :=
    tail?_ofNat (Nat.mod_lt n (by omega))
  obtain ⟨h, e⟩ | ⟨low, high, e⟩ | ⟨low, high, e⟩ | ⟨low, e⟩ := encodeChar_cases c
  · have byte : Char.ofUInt8 (UInt8.ofNat c.toNat) = c := by
      refine Char.ext (UInt32.toNat_inj.1 ?_)
      exact toNat_ofNat (by omega)
    rw [e, List.singleton_append, split.eq_def]
    simp only [toNat_ofNat (by omega : c.toNat < 256), if_pos h, byte]
  · have lead := toNat_ofNat (by omega : c.toNat / 64 + 0xC0 < 256)
    have pair := pair?_eq lead (by omega) (tail c.toNat)
    rw [show c.toNat / 64 * 0x40 + c.toNat % 64 = c.toNat by omega, scalar?_toNat low] at pair
    rw [e, List.cons_append, List.singleton_append, split.eq_def]
    simp only [lead, if_neg (by omega : ¬ c.toNat / 64 + 0xC0 < 0x80), pair]
  · have lead := toNat_ofNat (by omega : c.toNat / 4096 + 0xE0 < 256)
    have triple := triple?_eq lead (by omega) (tail (c.toNat / 64)) (tail c.toNat)
    rw [show (c.toNat / 4096 * 0x40 + c.toNat / 64 % 64) * 0x40 + c.toNat % 64 = c.toNat by omega,
      scalar?_toNat low] at triple
    rw [e, List.cons_append, List.cons_append, List.singleton_append, split.eq_def]
    simp only [lead, if_neg (by omega : ¬ c.toNat / 4096 + 0xE0 < 0x80),
      pair?_eq_none (lead ▸ (by omega : 0xE0 ≤ c.toNat / 4096 + 0xE0)), triple]
  · have lead := toNat_ofNat (by omega : c.toNat / 262144 + 0xF0 < 256)
    have quadruple := quadruple?_eq lead (by omega) (tail (c.toNat / 4096)) (tail (c.toNat / 64))
      (tail c.toNat)
    rw [show ((c.toNat / 262144 * 0x40 + c.toNat / 4096 % 64) * 0x40 + c.toNat / 64 % 64) * 0x40 +
      c.toNat % 64 = c.toNat by omega, scalar?_toNat low] at quadruple
    rw [e, List.cons_append, List.cons_append, List.cons_append, List.singleton_append,
      split.eq_def]
    simp only [lead, if_neg (by omega : ¬ c.toNat / 262144 + 0xF0 < 0x80),
      pair?_eq_none (lead ▸ (by omega : 0xE0 ≤ c.toNat / 262144 + 0xF0)),
      triple?_eq_none (lead ▸ (by omega : 0xF0 ≤ c.toNat / 262144 + 0xF0)), quadruple]

theorem split_encode (s : List Char) : split (encode s) = (s, []) := by
  induction s with
  | nil => rfl
  | cons c s ih =>
      rw [encode, List.flatMap_cons, split_encodeChar]
      change push c (split (encode s)) = _
      rw [ih, push]

@[simp] theorem encode_nil : encode [] = [] :=
  rfl

@[simp] theorem encode_cons (c : Char) (s : List Char) :
    encode (c :: s) = String.utf8EncodeChar c ++ encode s := by
  rw [encode, List.flatMap_cons]
  rfl

@[simp] theorem encode_append (s t : List Char) : encode (s ++ t) = encode s ++ encode t :=
  List.flatMap_append

theorem encodeChar_ascii {c : Char} (h : c.toNat < 0x80) :
    String.utf8EncodeChar c = [UInt8.ofNat c.toNat] := by
  obtain ⟨_, e⟩ | ⟨low, _⟩ | ⟨low, _⟩ | ⟨low, _⟩ := encodeChar_cases c
  · exact e
  all_goals omega

/-- No byte of a character beyond ASCII is an ASCII byte. -/
theorem high_of_mem_encodeChar {c : Char} (h : 0x80 ≤ c.toNat) {b : UInt8}
    (hb : b ∈ String.utf8EncodeChar c) : 0x80 ≤ b.toNat := by
  have top := toNat_lt c
  obtain ⟨low, _⟩ | ⟨_, high, e⟩ | ⟨_, high, e⟩ | ⟨_, e⟩ := encodeChar_cases c
  · omega
  all_goals
    rw [e] at hb
    simp only [List.mem_cons, List.not_mem_nil, or_false] at hb
    obtain ⟨n, rfl, ge, le⟩ : ∃ n, b = UInt8.ofNat n ∧ 0x80 ≤ n ∧ n < 256 := by
      obtain rfl | rfl | rfl | rfl := hb <;> exact ⟨_, rfl, by omega, by omega⟩
    rw [toNat_ofNat le]
    exact ge

/-- A text is read back from its bytes. -/
theorem decode_encode (s : List Char) : decode (encode s) = .ok s := by
  rw [decode, split_encode]

theorem le_of_scalar? {least n : Nat} {c : Char} (h : scalar? least n = some c) :
    least ≤ c.toNat := by
  rw [scalar?] at h
  by_cases valid : n.isValidChar
  · rw [dif_pos valid] at h
    by_cases le : least ≤ n
    · rw [if_pos le] at h
      cases h
      exact Nat.le_trans le (Nat.le_of_eq (UInt32.toNat_ofNatLT ..).symm)
    · rw [if_neg le] at h
      cases h
  · rw [dif_neg valid] at h
    cases h

theorem high_of_pair? {a b : UInt8} {x : Char} (h : pair? a b = some x) : 0x80 ≤ x.toNat := by
  simp only [pair?, Option.bind_eq_bind, Option.bind_eq_some_iff] at h
  obtain ⟨_, _, _, _, h⟩ := h
  exact le_of_scalar? h

theorem high_of_triple? {a b c : UInt8} {x : Char} (h : triple? a b c = some x) :
    0x80 ≤ x.toNat := by
  simp only [triple?, Option.bind_eq_bind, Option.bind_eq_some_iff] at h
  obtain ⟨_, _, _, _, _, _, h⟩ := h
  exact Nat.le_trans (by decide) (le_of_scalar? h)

theorem high_of_quadruple? {a b c d : UInt8} {x : Char} (h : quadruple? a b c d = some x) :
    0x80 ≤ x.toNat := by
  simp only [quadruple?, Option.bind_eq_bind, Option.bind_eq_some_iff] at h
  obtain ⟨_, _, _, _, _, _, _, _, h⟩ := h
  exact Nat.le_trans (by decide) (le_of_scalar? h)

/-- A character of ASCII is read from its own byte only. -/
theorem mem_of_mem_split {bs : List UInt8} {c : Char} (ascii : c.toNat < 0x80)
    (h : c ∈ (split bs).1) : UInt8.ofNat c.toNat ∈ bs := by
  have other {x : Char} (high : 0x80 ≤ x.toNat) : c ≠ x := by
    rintro rfl
    omega
  fun_induction split bs with
  | case1 => cases h
  | case2 a s low ih =>
      obtain rfl | h := List.mem_cons.1 h
      · have byte : UInt8.ofNat (Char.ofUInt8 a).toNat = a := UInt8.ofNat_toNat
        rw [byte]
        exact .head s
      · exact .tail a (ih h)
  | case4 a _ b s x pair ih =>
      have rest := (List.mem_cons.1 h).resolve_left (other (high_of_pair? pair))
      exact List.mem_append_right [a, b] (ih rest)
  | case6 a _ b _ c s x triple ih =>
      have rest := (List.mem_cons.1 h).resolve_left (other (high_of_triple? triple))
      exact List.mem_append_right [a, b, c] (ih rest)
  | case8 a _ b _ c _ d s x quadruple ih =>
      have rest := (List.mem_cons.1 h).resolve_left (other (high_of_quadruple? quadruple))
      exact List.mem_append_right [a, b, c, d] (ih rest)
  | case3 | case5 | case7 | case9 => cases h

/-- An ASCII character that has been read stands among the bytes. -/
theorem mem_of_mem_decode {bs : List UInt8} {s : List Char} (h : decode bs = .ok s) {c : Char}
    (ascii : c.toNat < 0x80) (hc : c ∈ s) : UInt8.ofNat c.toNat ∈ bs := by
  rw [decode] at h
  split at h
  · next cs whole =>
      cases h
      exact mem_of_mem_split ascii (by rwa [whole])
  · cases h
end Utf8
end CreditRating

import CreditRating.Proofs.Binary.Unpacked

/-!
Numbers as bit patterns. Packing keeps a normal form whose exponent fits and
makes one that is too large infinite; unpacking always gives a normal form.
-/

namespace CreditRating
namespace Binary

open Float.Model (UnpackedFloat Format)
open Float.Model.UnpackedFloat

/-- A number in its normal form, of any size. -/
def Canonical : UnpackedFloat → Prop
  | .finite _ m e _ => Normal m e
  | _ => True

/-- A number in its normal form that is not too large. -/
def Fits : UnpackedFloat → Prop
  | .finite _ m e _ => Normal m e ∧ e ≤ 971
  | _ => True

def capped : UnpackedFloat → UnpackedFloat
  | .finite s m e h => if 971 < e then .infinity s else .finite s m e h
  | u => u

theorem Fits.canonical {u : UnpackedFloat} (h : Fits u) : Canonical u := by
  cases u with
  | finite _ _ _ _ => exact h.1
  | infinity _ | notANumber | zero _ => trivial

theorem Fits.capped_eq {u : UnpackedFloat} (h : Fits u) : capped u = u := by
  cases u with
  | finite _ _ _ _ => exact if_neg (Int.not_lt.2 h.2)
  | infinity _ | notANumber | zero _ => rfl

section Components
variable (s : Sign) (ev : BitVec 11) (mv : BitVec 52)

theorem toNat_one_append : ((1#1 ++ mv).toNat : ℕ) = 2 ^ 52 + mv.toNat := by
  rw [BitVec.toNat_append, ← Nat.shiftLeft_add_eq_or_of_lt mv.isLt, Nat.shiftLeft_eq]
  simp

/-- What the three parts of a pattern stand for. -/
theorem unpack_packComponents :
    unpack Format.binary64 (packComponents Format.binary64 s ev mv) =
      if ev = -1#11 then if mv = 0#52 then .infinity s else .notANumber
      else if ev = 0#11 then
        if h : mv = 0#52 then .zero s
        else .finite s mv.toNat (-1074) (by simpa [BitVec.toNat_pos, BitVec.pos_iff_ne_zero])
      else .finite s (2 ^ 52 + mv.toNat) (ev.toNat - 1075) (by omega) := by
  simp only [unpack, unpackExponent_packComponents, unpackMantissa_packComponents,
    unpackSign_packComponents, Sign.ofBitVec_toBitVec]
  split
  · rfl
  · split
    · next hz =>
        subst hz
        rfl
    · congr 1
      exact toNat_one_append mv

end Components

section Packed
variable (s : Sign) {m : ℕ} {e : ℤ} (hm : 0 < m)

/-- The exponent as it is stored. -/
theorem biased_eq : e + Format.binary64.exponentBias + (52 : ℕ) = e + 1075 := by
  rw [show ((Format.binary64.exponentBias : ℕ) : ℤ) = 1023 from rfl]
  omega

/-- A number too large for the range is packed as infinite. -/
theorem pack_of_large (he : 971 < e) :
    UnpackedFloat.pack Format.binary64 (.finite s m e hm) =
      packedInfinity Format.binary64 s := by
  simp only [UnpackedFloat.pack, biased_eq]
  rw [if_pos (by omega)]

theorem pack_of_full (hlt : m < 2 ^ 53) (hfull : 2 ^ 52 ≤ m) (he : e ≤ 971) :
    UnpackedFloat.pack Format.binary64 (.finite s m e hm) =
      packComponents Format.binary64 s (BitVec.ofNat 11 (e + 1075).toNat) (BitVec.ofNat 52 m) := by
  have hlog : m.log2 + 1 = Format.binary64.mantissaBits := by
    have h1 := (Nat.le_log2 hm.ne').2 hfull
    have h2 := (Nat.log2_lt hm.ne').2 hlt
    change m.log2 + 1 = 53
    omega
  simp only [UnpackedFloat.pack, biased_eq]
  rw [if_neg (by omega), if_pos hlog]

theorem pack_of_small (hlt : m < 2 ^ 52) :
    UnpackedFloat.pack Format.binary64 (.finite s m (-1074) hm) =
      packComponents Format.binary64 s 0#11 (BitVec.ofNat 52 m) := by
  have hlog : m.log2 + 1 ≠ Format.binary64.mantissaBits := by
    have h := (Nat.log2_lt hm.ne').2 hlt
    change m.log2 + 1 ≠ 53
    omega
  simp only [UnpackedFloat.pack, biased_eq]
  rw [if_neg (by omega), if_neg hlog]

end Packed

theorem ofNat_eq_iff {w n : ℕ} (hn : n < 2 ^ w) (b : BitVec w) :
    BitVec.ofNat w n = b ↔ n = b.toNat := by
  rw [← BitVec.toNat_inj, BitVec.toNat_ofNat, Nat.mod_eq_of_lt hn]

/-- Packing loses nothing but the size of a number that is too large. -/
theorem unpack_pack {u : UnpackedFloat} (h : Canonical u) :
    UnpackedFloat.unpack Format.binary64 (UnpackedFloat.pack Format.binary64 u) = capped u := by
  cases u with
  | notANumber => exact unpack_packedNaN
  | infinity s =>
      rw [UnpackedFloat.pack, packedInfinity, unpack_packComponents]
      rfl
  | zero s => exact unpack_packedZero
  | finite s m e hm =>
      obtain ⟨hlt, hleast, hfull⟩ := h
      rw [capped]
      by_cases hcap : 971 < e
      · rw [if_pos hcap, pack_of_large s hm hcap, packedInfinity, unpack_packComponents]
        rfl
      rw [if_neg hcap]
      by_cases hbig : 2 ^ 52 ≤ m
      · have hev := ofNat_eq_iff (w := 11) (n := (e + 1075).toNat) (by omega)
        rw [pack_of_full s hm hlt hbig (by omega), unpack_packComponents, if_neg, if_neg]
        · congr 1
          · rw [BitVec.toNat_ofNat]
            omega
          · rw [BitVec.toNat_ofNat, Nat.mod_eq_of_lt (by omega)]
            omega
        · rw [hev, BitVec.toNat_zero]
          omega
        · rw [hev]
          change _ ≠ 2047
          omega
      · obtain rfl := hfull.resolve_left hbig
        have hsmall := Nat.not_le.1 hbig
        have hmant : (BitVec.ofNat 52 m).toNat = m := by
          rw [BitVec.toNat_ofNat, Nat.mod_eq_of_lt hsmall]
        rw [pack_of_small s hm hsmall, unpack_packComponents, if_neg (by decide), if_pos rfl,
          dif_neg]
        · congr 1
        · rw [ofNat_eq_iff hsmall, BitVec.toNat_zero]
          omega

/-- What a pattern stands for is a normal form that fits. -/
theorem fits_unpack (b : BitVec 64) : Fits (UnpackedFloat.unpack Format.binary64 b) := by
  have parts := @packComponents_unpackSign_unpackExponent_unpackMantissa Format.binary64 b
  rw [← parts, unpack_packComponents]
  generalize @unpackExponent Format.binary64 b = ev
  generalize @unpackMantissa Format.binary64 b = mv
  have hm : mv.toNat < 2 ^ 52 := mv.isLt
  have he : ev.toNat < 2 ^ 11 := ev.isLt
  split
  · split <;> trivial
  · next hmax =>
      rw [← BitVec.toNat_inj] at hmax
      change ev.toNat ≠ 2047 at hmax
      split
      · split
        · trivial
        · exact ⟨⟨by omega, le_rfl, .inr rfl⟩, by norm_num⟩
      · next hzero =>
          rw [← BitVec.toNat_inj, BitVec.toNat_zero] at hzero
          exact ⟨⟨by omega, by omega, .inl (by omega)⟩, by omega⟩

end Binary
end CreditRating

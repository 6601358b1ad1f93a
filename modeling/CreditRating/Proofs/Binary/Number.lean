import CreditRating.Proofs.Binary.Arithmetic

/-!
Numbers as quantities. Comparison of numbers is comparison of what they stand
for, and an operation gives the rounded result of the operation on what its
arguments stand for, as long as there is a result.
-/

namespace CreditRating
namespace Binary

open Float.Model (UnpackedFloat Format)
open Float.Model.UnpackedFloat

def unpacked (x : Float) : UnpackedFloat := x.toModel.unpack

/-- Every number of the type is in its normal form and in the range. -/
theorem fits_unpacked (x : Float) : Fits (unpacked x) := fits_unpack _

/-- A number is determined by its parts. -/
theorem unpacked_injective {x y : Float} (h : unpacked x = unpacked y) : x = y := by
  obtain ⟨⟨a, ha⟩⟩ := x
  obtain ⟨⟨b, hb⟩⟩ := y
  have : a.toBitVec = b.toBitVec := by
    rw [← pack_unpack_of_valid ha, ← pack_unpack_of_valid hb]
    exact congrArg _ h
  obtain rfl := UInt64.toBitVec_inj.1 this
  rfl

/-- A packed number is read back, unless it has become infinite. -/
theorem unpacked_pack {u : UnpackedFloat} (h : Canonical u) :
    unpacked (.ofModel (.pack u)) = capped u :=
  unpack_pack h

theorem unpacked_pack_of_fits {u : UnpackedFloat} (h : Fits u) :
    unpacked (.ofModel (.pack u)) = u := by
  rw [unpacked_pack h.canonical, h.capped_eq]

/-- What a number stands for. -/
def quantity (x : Float) : ℚ := value (unpacked x)

theorem isNaN_eq (x : Float) : x.isNaN = (unpacked x).isNaN := rfl

theorem isFinite_eq (x : Float) : x.isFinite = (unpacked x).isFinite := rfl

theorem Gives.quantity {q : ℚ} {u : UnpackedFloat} (h : Gives q u) :
    Binary.quantity (.ofModel (.pack u)) = bounded q := by
  rw [Binary.quantity, unpacked_pack h.canonical, h.value_eq]

theorem isNaN_capped (u : UnpackedFloat) : (capped u).isNaN = u.isNaN := by
  cases u with
  | infinity _ | notANumber | zero _ => rfl
  | finite s m e h =>
      rw [capped]
      split <;> rfl

theorem isNaN_pack {u : UnpackedFloat} (h : Canonical u) :
    Float.isNaN (.ofModel (.pack u)) = u.isNaN := by
  rw [isNaN_eq, unpacked_pack h, isNaN_capped]

/-- What the outcome of a comparison says about two quantities. -/
def Orders (p q : ℚ) : Ordering → Prop
  | .lt => p < q
  | .eq => p = q
  | .gt => q < p

theorem Orders.swap {p q : ℚ} {o : Ordering} (h : Orders p q o) : Orders (-p) (-q) o.swap := by
  cases o
  · exact neg_lt_neg h
  · exact congrArg _ h
  · exact neg_lt_neg h

theorem Normal.lt_of_exponent_lt {m n : ℕ} {e f : ℤ} (hm : Normal m e) (hn : Normal n f)
    (h : e < f) : (m * 2 ^ e : ℚ) < n * 2 ^ f := by
  have hlt : (m : ℚ) < 2 ^ (53 : ℤ) := by exact_mod_cast hm.lt
  have hge : (2 : ℚ) ^ (52 : ℤ) ≤ n := by
    exact_mod_cast hn.full.resolve_right (by have := hm.least; omega)
  calc (m * 2 ^ e : ℚ)
      < 2 ^ (53 : ℤ) * 2 ^ e := mul_lt_mul_of_pos_right hlt (two_zpow_pos e)
    _ = 2 ^ (53 + e) := (two_zpow_add _ _).symm
    _ ≤ 2 ^ (52 + f) := two_zpow_le (by omega)
    _ = 2 ^ (52 : ℤ) * 2 ^ f := two_zpow_add _ _
    _ ≤ n * 2 ^ f := mul_le_mul_of_nonneg_right hge (two_zpow_pos f).le

theorem Normal.orders {m n : ℕ} {e f : ℤ} (hm : Normal m e) (hn : Normal n f) :
    Orders (m * 2 ^ e) (n * 2 ^ f) ((compare e f).then (compare m n)) := by
  obtain h | rfl | h := lt_trichotomy e f
  · rw [Int.compare_eq_lt.2 h]
    exact hm.lt_of_exponent_lt hn h
  · rw [Int.compare_eq_eq.2 rfl, Ordering.then]
    obtain h | rfl | h := lt_trichotomy m n
    · rw [Nat.compare_eq_lt.2 h]
      exact mul_lt_mul_of_pos_right (by exact_mod_cast h) (two_zpow_pos e)
    · rw [Nat.compare_eq_eq.2 rfl]
      rfl
    · rw [Nat.compare_eq_gt.2 h]
      exact mul_lt_mul_of_pos_right (by exact_mod_cast h) (two_zpow_pos e)
  · rw [Int.compare_eq_gt.2 h]
    exact hn.lt_of_exponent_lt hm h

theorem value_pos {m : ℕ} (e : ℤ) (h : 0 < m) : (0 : ℚ) < m * 2 ^ e :=
  mul_pos (by exact_mod_cast h) (two_zpow_pos e)

/-- Numbers are compared by what they stand for. -/
theorem compare_orders {u v : UnpackedFloat} (hu : Fits u) (hv : Fits v) (nu : u.isNaN = false)
    (nv : v.isNaN = false) : ∃ o, u.compare v = some o ∧ Orders (value u) (value v) o := by
  have ht := top_pos
  have hf := far_eq
  have au := hu.abs_value_lt
  have av := hv.abs_value_lt
  cases u with
  | notANumber => cases nu
  | infinity s =>
      cases v with
      | notANumber => cases nv
      | infinity t =>
          refine ⟨_, rfl, ?_⟩
          cases s <;> cases t <;> simp only [value, signed, compare, Orders] <;> linarith
      | zero t | finite t n f hn =>
          have := abs_lt.1 (av rfl)
          cases s <;> refine ⟨_, rfl, ?_⟩ <;> simp only [Orders] <;>
            rw [show value (.infinity _) = signed _ far from rfl, signed] <;> linarith
  | zero s =>
      cases v with
      | notANumber => cases nv
      | infinity t =>
          cases t <;> refine ⟨_, rfl, ?_⟩ <;> simp only [Orders, value, signed] <;> linarith
      | zero t => exact ⟨_, rfl, rfl⟩
      | finite t n f hn =>
          have := value_pos f hn
          cases t <;> refine ⟨_, rfl, ?_⟩ <;> simp only [Orders, value, signed] <;> linarith
  | finite s m e hm =>
      have pm := value_pos e hm
      cases v with
      | notANumber => cases nv
      | infinity t =>
          have := abs_lt.1 (au rfl)
          cases s <;> cases t <;> refine ⟨_, rfl, ?_⟩ <;> simp only [Orders] <;>
            rw [show value (.infinity _) = signed _ far from rfl, signed] <;> linarith
      | zero t =>
          cases s <;> refine ⟨_, rfl, ?_⟩ <;> simp only [Orders, value, signed] <;> linarith
      | finite t n f hn =>
          have pn := value_pos f hn
          cases s <;> cases t
          · exact ⟨_, rfl, (hu.1.orders hv.1).swap⟩
          · exact ⟨_, rfl, show -(m * 2 ^ e : ℚ) < n * 2 ^ f by linarith⟩
          · exact ⟨_, rfl, show -(n * 2 ^ f : ℚ) < m * 2 ^ e by linarith⟩
          · exact ⟨_, rfl, hu.1.orders hv.1⟩

/-- The order of numbers is that of the quantities they stand for. -/
theorem le_iff {x y : Float} (hx : x.isNaN = false) (hy : y.isNaN = false) :
    x ≤ y ↔ quantity x ≤ quantity y := by
  obtain ⟨o, ho, h⟩ := compare_orders (fits_unpacked x) (fits_unpacked y) hx hy
  have hle : x ≤ y ↔ o.isLE := by
    change decide ((unpacked x).le (unpacked y) = true) = true ↔ _
    rw [UnpackedFloat.le, ho, decide_eq_true_iff]
    rfl
  rw [hle, quantity, quantity]
  cases o <;> simp only [Orders] at h <;> simp [Ordering.isLE, h, h.le]

theorem lt_iff {x y : Float} (hx : x.isNaN = false) (hy : y.isNaN = false) :
    x < y ↔ quantity x < quantity y := by
  obtain ⟨o, ho, h⟩ := compare_orders (fits_unpacked x) (fits_unpacked y) hx hy
  have hlt : x < y ↔ o = .lt := by
    change decide ((unpacked x).lt (unpacked y) = true) = true ↔ _
    rw [UnpackedFloat.lt, ho, decide_eq_true_iff]
    cases o <;> decide
  rw [hlt, quantity, quantity]
  cases o <;> simp only [Orders] at h <;> simp [h, h.le]

theorem beq_iff {x y : Float} (hx : x.isNaN = false) (hy : y.isNaN = false) :
    (x == y) = true ↔ quantity x = quantity y := by
  obtain ⟨o, ho, h⟩ := compare_orders (fits_unpacked x) (fits_unpacked y) hx hy
  have heq : (x == y) = true ↔ o = .eq := by
    change (unpacked x).beq (unpacked y) = true ↔ _
    rw [UnpackedFloat.beq, ho]
    cases o <;> decide
  rw [heq, quantity, quantity]
  cases o with
  | lt => exact iff_of_false nofun (ne_of_lt h)
  | eq => exact iff_of_true rfl h
  | gt => exact iff_of_false nofun (ne_of_gt h)

/-- Only numbers compare. -/
theorem isNaN_of_compare {u v : UnpackedFloat} {o : Ordering} (h : u.compare v = some o) :
    u.isNaN = false ∧ v.isNaN = false := by
  cases u with
  | notANumber => cases h
  | infinity _ | zero _ | finite _ _ _ _ =>
      cases v with
      | notANumber => cases h
      | infinity _ | zero _ | finite _ _ _ _ => exact ⟨rfl, rfl⟩

theorem isNaN_of_le {x y : Float} (h : x ≤ y) : x.isNaN = false ∧ y.isNaN = false := by
  change decide ((unpacked x).le (unpacked y) = true) = true at h
  rw [decide_eq_true_iff, UnpackedFloat.le] at h
  cases hc : (unpacked x).compare (unpacked y) with
  | none => rw [hc] at h; cases h
  | some o => exact isNaN_of_compare hc

theorem isNaN_of_lt {x y : Float} (h : x < y) : x.isNaN = false ∧ y.isNaN = false := by
  change decide ((unpacked x).lt (unpacked y) = true) = true at h
  rw [decide_eq_true_iff, UnpackedFloat.lt] at h
  cases hc : (unpacked x).compare (unpacked y) with
  | none => rw [hc] at h; cases h
  | some o => exact isNaN_of_compare hc

theorem isNaN_of_isFinite {x : Float} (h : x.isFinite) : x.isNaN = false := by
  rw [isFinite_eq] at h
  rw [isNaN_eq]
  cases hu : unpacked x with
  | notANumber => rw [hu] at h; cases h
  | infinity _ | zero _ | finite _ _ _ _ => rfl

theorem abs_quantity_lt {x : Float} (h : x.isFinite) : |quantity x| < top :=
  (fits_unpacked x).abs_value_lt h

theorem isFinite_iff {x : Float} (h : x.isNaN = false) : x.isFinite ↔ |quantity x| < top := by
  refine ⟨abs_quantity_lt, fun hq => ?_⟩
  rw [quantity] at hq
  rw [isNaN_eq] at h
  rw [isFinite_eq]
  cases hu : unpacked x with
  | notANumber => rw [hu] at h; cases h
  | infinity s =>
      rw [hu, value, abs_signed, abs_of_pos far_pos] at hq
      linarith [far_eq, top_pos]
  | zero _ | finite _ _ _ _ => rfl

theorem canonical_add {u v : UnpackedFloat} (hu : Fits u) (hv : Fits v) :
    Canonical (add Format.binary64 u v) := by
  by_cases h : (add Format.binary64 u v).isNaN = false
  · exact (gives_add hu hv h).canonical
  · cases hs : add Format.binary64 u v with
    | finite _ _ _ _ => rw [hs] at h; exact absurd rfl h
    | infinity _ | notANumber | zero _ => trivial

theorem isNaN_add (x y : Float) :
    (x + y).isNaN = (add Format.binary64 (unpacked x) (unpacked y)).isNaN :=
  isNaN_pack (canonical_add (fits_unpacked x) (fits_unpacked y))

theorem quantity_add {x y : Float} (h : (x + y).isNaN = false) :
    quantity (x + y) = bounded (quantity x + quantity y) := by
  rw [isNaN_add] at h
  exact (gives_add (fits_unpacked x) (fits_unpacked y) h).quantity

theorem isNaN_sub (x y : Float) :
    (x - y).isNaN = (sub Format.binary64 (unpacked x) (unpacked y)).isNaN := by
  refine isNaN_pack ?_
  rw [sub_eq_add]
  exact canonical_add (fits_unpacked x) (fits_unpacked y).neg

theorem quantity_sub {x y : Float} (h : (x - y).isNaN = false) :
    quantity (x - y) = bounded (quantity x - quantity y) := by
  rw [isNaN_sub] at h
  exact (gives_sub (fits_unpacked x) (fits_unpacked y) h).quantity

theorem IsRounding.isNaN {s : Sign} {q : ℚ} {u : UnpackedFloat} (h : IsRounding s q u) :
    u.isNaN = false := by
  cases u with
  | notANumber | infinity _ => exact h.elim
  | zero _ | finite _ _ _ _ => rfl

theorem isNaN_normalize (m e : ℤ) (s : Sign) :
    (UnpackedFloat.normalize Format.binary64 m e s).isNaN = false := by
  obtain hm | rfl | hm := lt_trichotomy m 0
  · rw [UnpackedFloat.normalize, Int.compare_eq_lt.2 hm]
    exact (isRounding_round .negative (m := (-m).toNat) e (by omega)).isNaN
  · rfl
  · rw [UnpackedFloat.normalize, Int.compare_eq_gt.2 hm]
    exact (isRounding_round .positive (m := m.toNat) e (by omega)).isNaN

theorem isNaN_add_model {u v : UnpackedFloat} (hu : u.isNaN = false) (hv : v.isFinite) :
    (add Format.binary64 u v).isNaN = false := by
  cases u with
  | notANumber => cases hu
  | infinity s =>
      cases v with
      | infinity _ | notANumber => cases hv
      | zero _ | finite _ _ _ _ => rfl
  | zero s =>
      cases v with
      | infinity _ | notANumber => cases hv
      | zero t => cases s <;> cases t <;> rfl
      | finite _ _ _ _ => rfl
  | finite s m e hm =>
      cases v with
      | infinity _ | notANumber => cases hv
      | zero _ => rfl
      | finite _ _ _ _ => exact isNaN_normalize _ _ _

/-- A finite number can be added to any other number. -/
theorem isNaN_add_of_isFinite {x y : Float} (hx : x.isNaN = false) (hy : y.isFinite) :
    (x + y).isNaN = false :=
  (isNaN_add x y).trans (isNaN_add_model hx hy)

/-- A finite number can be taken from any other number. -/
theorem isNaN_sub_of_isFinite {x y : Float} (hx : x.isNaN = false) (hy : y.isFinite) :
    (x - y).isNaN = false := by
  rw [isNaN_sub, sub_eq_add]
  rw [isFinite_eq] at hy
  refine isNaN_add_model hx ?_
  cases hv : unpacked y with
  | infinity _ | notANumber => rw [hv] at hy; cases hy
  | zero _ | finite _ _ _ _ => rfl

theorem canonical_mul {u v : UnpackedFloat} (hu : Fits u) (hv : Fits v) :
    Canonical (mul Format.binary64 u v) := by
  cases u with
  | notANumber => trivial
  | infinity _ | zero _ => cases v <;> trivial
  | finite s m e hm =>
      cases v with
      | notANumber | infinity _ | zero _ => trivial
      | finite _ _ _ _ => exact (gives_mul hu hv rfl rfl).canonical

theorem isNaN_mul (x y : Float) :
    (x * y).isNaN = (mul Format.binary64 (unpacked x) (unpacked y)).isNaN :=
  isNaN_pack (canonical_mul (fits_unpacked x) (fits_unpacked y))

/-- A product of finite numbers is the product of their quantities, rounded. -/
theorem quantity_mul {x y : Float} (hx : x.isFinite) (hy : y.isFinite) :
    quantity (x * y) = bounded (quantity x * quantity y) :=
  (gives_mul (fits_unpacked x) (fits_unpacked y) hx hy).quantity

theorem value_eq_zero_iff {u : UnpackedFloat} (h : u.isNaN = false) :
    value u = 0 ↔ ∃ s, u = .zero s := by
  have signed_ne {s : Sign} {q : ℚ} (hq : 0 < q) : signed s q ≠ 0 := by
    rw [← abs_pos, abs_signed]
    exact abs_pos.2 hq.ne'
  cases u with
  | notANumber => cases h
  | zero s => exact ⟨fun _ => ⟨s, rfl⟩, fun _ => rfl⟩
  | infinity s =>
      exact ⟨fun h => absurd h (signed_ne far_pos), fun ⟨_, h⟩ => nomatch h⟩
  | finite s m e hm =>
      exact ⟨fun h => absurd h (signed_ne (value_pos e hm)), fun ⟨_, h⟩ => nomatch h⟩

/-- The only product with a finite number that fails is that of an infinite number and a zero. -/
theorem isNaN_mul_iff {x y : Float} (hx : x.isNaN = false) (hy : y.isFinite) :
    (x * y).isNaN ↔ x.isFinite = false ∧ quantity y = 0 := by
  rw [isNaN_mul, quantity, value_eq_zero_iff (u := unpacked y) (isNaN_of_isFinite hy), isFinite_eq]
  have fu := fits_unpacked x
  have fv := fits_unpacked y
  rw [isNaN_eq] at hx
  rw [isFinite_eq] at hy
  generalize unpacked x = u at hx fu ⊢
  generalize unpacked y = v at hy fv ⊢
  cases v with
  | infinity _ | notANumber => cases hy
  | zero t =>
      cases u with
      | notANumber => cases hx
      | infinity s => exact ⟨fun _ => ⟨rfl, t, rfl⟩, fun _ => rfl⟩
      | zero s | finite s m e hm => exact ⟨fun h => (nomatch h), fun h => (nomatch h.1)⟩
  | finite t n f hn =>
      cases u with
      | notANumber => cases hx
      | infinity s => exact ⟨fun h => (nomatch h), fun ⟨_, _, h⟩ => (nomatch h)⟩
      | zero s => exact ⟨fun h => (nomatch h), fun h => (nomatch h.1)⟩
      | finite s m e hm =>
          have h := (isRounding_exact (s * t) (Nat.mul_pos hm hn)
            (fu.1.mul_le_gridExponent fv.1 hm hn)).isNaN
          exact ⟨fun h' => absurd (h'.symm.trans h) nofun, fun h' => nomatch h'.1⟩

theorem isNaN_mul_of_isFinite {x y : Float} (hx : x.isFinite) (hy : y.isFinite) :
    (x * y).isNaN = false := by
  rw [Bool.eq_false_iff, Ne, isNaN_mul_iff (isNaN_of_isFinite hx) hy, hx]
  exact fun h => nomatch h.1

theorem canonical_div {u v : UnpackedFloat} (fu : u.isFinite) (fv : v.isFinite)
    (hv : value v ≠ 0) : Canonical (div Format.binary64 u v) :=
  (gives_div fu fv hv).canonical

/-- A quotient by a number other than zero is the quotient of the quantities, rounded. -/
theorem quantity_div {x y : Float} (hx : x.isFinite) (hy : y.isFinite) (h : quantity y ≠ 0) :
    quantity (x / y) = bounded (quantity x / quantity y) :=
  (gives_div hx hy h).quantity

theorem isNaN_div_of_isFinite {x y : Float} (hx : x.isFinite) (hy : y.isFinite)
    (h : quantity y ≠ 0) : (x / y).isNaN = false := by
  refine (isNaN_pack (canonical_div hx hy h)).trans ?_
  change (div Format.binary64 (unpacked x) (unpacked y)).isNaN = false
  rw [isFinite_eq] at hx hy
  rw [quantity] at h
  generalize unpacked x = u at hx ⊢
  generalize unpacked y = v at hy h ⊢
  cases v with
  | infinity _ | notANumber => cases hy
  | zero _ => exact absurd rfl h
  | finite t n f hn =>
      cases u with
      | infinity _ | notANumber => cases hx
      | zero _ => rfl
      | finite s m e hm => exact (isRounding_div (s / t) e f hm hn).isNaN

theorem Fits.abs {u : UnpackedFloat} (h : Fits u) : Fits u.abs := by
  cases u with
  | finite _ _ _ _ => exact h
  | infinity _ | notANumber | zero _ => trivial

theorem unpacked_abs (x : Float) : unpacked x.abs = (unpacked x).abs :=
  unpacked_pack_of_fits (fits_unpacked x).abs

theorem quantity_abs (x : Float) : quantity x.abs = |quantity x| := by
  rw [quantity, quantity, unpacked_abs]
  generalize unpacked x = u
  cases u with
  | notANumber | zero _ => exact abs_zero.symm
  | infinity s => rw [value, abs_signed, abs_of_pos far_pos]; rfl
  | finite s m e hm => rw [value, abs_signed, abs_of_pos (value_pos e hm)]; rfl

theorem isFinite_abs (x : Float) : x.abs.isFinite = x.isFinite := by
  rw [isFinite_eq, isFinite_eq, unpacked_abs]
  cases unpacked x <;> rfl

theorem quantity_toFloat {n : UInt64} (h : n.toNat ≤ 2 ^ 53) :
    n.toFloat.isFinite ∧ quantity n.toFloat = n.toNat := by
  have gives := gives_normalize n.toNat 0 .positive
  have habs : |(n.toNat : ℤ)| ≤ 2 ^ 53 := by rw [abs_of_nonneg] <;> omega
  have hn : n.toFloat.isNaN = false :=
    (isNaN_pack gives.canonical).trans (isNaN_normalize _ _ _)
  have hq : quantity n.toFloat = n.toNat := by
    have := gives.quantity
    rwa [zpow_zero, mul_one, bounded_intCast habs] at this
  rw [isFinite_iff hn, hq]
  exact ⟨lt_top_of_le (by exact_mod_cast habs), rfl⟩

theorem quantity_powerOfTen (e : Fin 23) :
    Float.exactlyRepresentablePowersOfTen[e].isFinite ∧
      quantity Float.exactlyRepresentablePowersOfTen[e] = 10 ^ e.1 := by
  revert e
  decide +kernel

theorem quantity_toUInt64 {n : ℕ} (h : n < 2 ^ 53) :
    n.toUInt64.toFloat.isFinite ∧ quantity n.toUInt64.toFloat = n := by
  have hn : n.toUInt64.toNat = n := UInt64.toNat_ofNat_of_lt (h.trans (by norm_num))
  have hq := quantity_toFloat (n := n.toUInt64) (by omega)
  rwa [hn] at hq

theorem quantity_ofNat {n : ℕ} (h : n < 2 ^ 53) :
    (Float.ofNat n).isFinite ∧ quantity (Float.ofNat n) = n := by
  obtain ⟨oneFinite, one⟩ := quantity_powerOfTen 0
  obtain ⟨hf, hq⟩ := quantity_toUInt64 h
  have hu : Float.ofNat n =
      n.toUInt64.toFloat * Float.exactlyRepresentablePowersOfTen[(0 : Fin 23)] := by
    change Float.ofScientific n false 0 = _
    rw [Float.ofScientific, dif_pos ⟨h, by decide⟩]
    rfl
  have habs : |(n : ℤ)| ≤ 2 ^ 53 := by rw [abs_of_nonneg] <;> omega
  have hmul : quantity (Float.ofNat n) = n := by
    rw [hu, quantity_mul hf oneFinite, one, hq]
    change bounded (n * 10 ^ 0) = n
    rw [pow_zero, mul_one]
    exact bounded_intCast habs
  rw [hu, isFinite_iff (isNaN_mul_of_isFinite hf oneFinite), ← hu, hmul]
  exact ⟨lt_top_of_le (by exact_mod_cast habs), rfl⟩

/-- A decimal fraction in a program is the rounded fraction. -/
theorem quantity_literal {m e : ℕ} (hm : m < 2 ^ 53) (he : e ≤ 22) :
    (OfScientific.ofScientific m true e : Float).isNaN = false ∧
      quantity (OfScientific.ofScientific m true e) = bounded (m / 10 ^ e) := by
  obtain ⟨hf, hq⟩ := quantity_toUInt64 hm
  obtain ⟨powFinite, pow⟩ := quantity_powerOfTen ⟨e, by omega⟩
  have hne : quantity Float.exactlyRepresentablePowersOfTen[(⟨e, by omega⟩ : Fin 23)] ≠ 0 := by
    rw [pow]
    positivity
  have hu : (OfScientific.ofScientific m true e : Float) =
      m.toUInt64.toFloat / Float.exactlyRepresentablePowersOfTen[(⟨e, by omega⟩ : Fin 23)] := by
    change Float.ofScientific m true e = _
    rw [Float.ofScientific, dif_pos ⟨hm, he⟩]
    rfl
  rw [hu, quantity_div hf powFinite hne, hq, pow]
  exact ⟨isNaN_div_of_isFinite hf powFinite hne, rfl⟩

theorem quantity_whole {m e : ℕ} {n : ℤ} (h : (m / 10 ^ e : ℚ) = n) (hm : m < 2 ^ 53) (he : e ≤ 22)
    (size : |n| ≤ 2 ^ 53) :
    (OfScientific.ofScientific m true e : Float).isFinite ∧
      quantity (OfScientific.ofScientific m true e) = n := by
  obtain ⟨hn, hq⟩ := quantity_literal hm he
  rw [h, bounded_intCast size] at hq
  rw [isFinite_iff hn, hq]
  exact ⟨lt_top_of_le (by exact_mod_cast size), rfl⟩

end Binary
end CreditRating

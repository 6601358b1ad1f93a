import CreditRating.Proofs.Binary.Number

/-!
The order of numbers under the rounded operations. What an exact operation does
to the order of its arguments the rounded one does too, for infinite arguments as
well as finite ones, wherever there is a result.
-/

namespace CreditRating
namespace Binary

open Float.Model (UnpackedFloat Format)
open Float.Model.UnpackedFloat

variable {x y z w v d e : Float}

theorem le_self (h : x.isNaN = false) : x ≤ x :=
  (le_iff h h).2 le_rfl

theorem quantity_le (h : x ≤ y) : quantity x ≤ quantity y := by
  obtain ⟨hx, hy⟩ := isNaN_of_le h
  exact (le_iff hx hy).1 h

theorem le_of_le_of_le (h : x ≤ y) (h' : y ≤ z) : x ≤ z := by
  have hx := (isNaN_of_le h).1
  have hz := (isNaN_of_le h').2
  exact (le_iff hx hz).2 ((quantity_le h).trans (quantity_le h'))

/-- What a number stands for is on the grid already. -/
theorem bounded_quantity (x : Float) : bounded (quantity x) = quantity x :=
  (fits_unpacked x).bounded_value

theorem unpacked_of_infinite (hx : x.isNaN = false) (h : x.isFinite = false) :
    ∃ s, unpacked x = .infinity s := by
  rw [isNaN_eq] at hx
  rw [isFinite_eq] at h
  cases hu : unpacked x with
  | notANumber => rw [hu] at hx; cases hx
  | zero _ | finite _ _ _ _ => rw [hu] at h; cases h
  | infinity s => exact ⟨s, rfl⟩

theorem unpacked_of_pos (hx : x.isFinite) (pos : 0 < quantity x) :
    ∃ m e hm, unpacked x = .finite .positive m e hm := by
  rw [isFinite_eq] at hx
  rw [quantity] at pos
  cases hu : unpacked x with
  | notANumber | infinity _ => rw [hu] at hx; cases hx
  | zero _ => rw [hu] at pos; exact absurd pos (lt_irrefl 0)
  | finite s m e hm =>
      cases s with
      | positive => exact ⟨m, e, hm, rfl⟩
      | negative =>
          have := value_pos e hm
          rw [hu] at pos
          change 0 < -(m * 2 ^ e : ℚ) at pos
          linarith

/-- Infinite numbers lie beyond all others. -/
theorem quantity_of_infinite (hx : x.isNaN = false) (h : x.isFinite = false) :
    quantity x = far ∨ quantity x = -far := by
  obtain ⟨s, hs⟩ := unpacked_of_infinite hx h
  rw [quantity, hs]
  cases s with
  | positive => exact .inl rfl
  | negative => exact .inr rfl

theorem abs_quantity_le_far (x : Float) : |quantity x| ≤ far := by
  have ht := top_pos
  have hf := far_eq
  rw [← bounded_quantity, bounded, abs_le]
  split_ifs <;> constructor <;> linarith

theorem isFinite_of_between (h : 0 ≤ quantity x) (h' : x ≤ y) (hy : y.isFinite) :
    x.isFinite := by
  rw [isFinite_iff (isNaN_of_le h').1, abs_of_nonneg h]
  exact (quantity_le h').trans_lt (abs_lt.1 (abs_quantity_lt hy)).2

/-- Sums keep the order, where what is added is finite. -/
theorem add_le_add_of_isFinite (h : x ≤ y) (h' : w ≤ v) (hw : w.isFinite) (hv : v.isFinite) :
    x + w ≤ y + v := by
  obtain ⟨hx, hy⟩ := isNaN_of_le h
  have hl := isNaN_add_of_isFinite hx hw
  have hr := isNaN_add_of_isFinite hy hv
  rw [le_iff hl hr, quantity_add hl, quantity_add hr]
  apply bounded_mono
  linarith [quantity_le h, quantity_le h']

theorem le_add_of_isFinite (h : x ≤ y) (hw : w.isFinite) (pos : 0 ≤ quantity w) :
    x ≤ y + w := by
  obtain ⟨hx, hy⟩ := isNaN_of_le h
  have hr := isNaN_add_of_isFinite hy hw
  rw [le_iff hx hr, quantity_add hr, ← bounded_quantity x]
  apply bounded_mono
  linarith [quantity_le h]

theorem sub_le_sub_of_isFinite (h : x ≤ y) (hw : w.isFinite) : x - w ≤ y - w := by
  obtain ⟨hx, hy⟩ := isNaN_of_le h
  have hl := isNaN_sub_of_isFinite hx hw
  have hr := isNaN_sub_of_isFinite hy hw
  rw [le_iff hl hr, quantity_sub hl, quantity_sub hr]
  apply bounded_mono
  linarith [quantity_le h]

theorem sub_le_of_isFinite (h : x ≤ y) (hw : w.isFinite) (pos : 0 ≤ quantity w) :
    x - w ≤ y := by
  obtain ⟨hx, hy⟩ := isNaN_of_le h
  have hl := isNaN_sub_of_isFinite hx hw
  rw [le_iff hl hy, quantity_sub hl, ← bounded_quantity y]
  apply bounded_mono
  linarith [quantity_le h]

/-- The larger number taken away leaves less. -/
theorem sub_le_sub_left_of_isFinite (hw : w.isNaN = false) (h : x ≤ y) (hx : x.isFinite)
    (hy : y.isFinite) : w - y ≤ w - x := by
  have hl := isNaN_sub_of_isFinite hw hy
  have hr := isNaN_sub_of_isFinite hw hx
  rw [le_iff hl hr, quantity_sub hl, quantity_sub hr]
  apply bounded_mono
  linarith [quantity_le h]

/-- A factor that is not negative keeps the order. -/
theorem mul_le_mul_left_of_isFinite (hw : w.isFinite) (pos : 0 ≤ quantity w) (h : x ≤ y)
    (hx : x.isFinite) (hy : y.isFinite) : w * x ≤ w * y := by
  rw [le_iff (isNaN_mul_of_isFinite hw hx) (isNaN_mul_of_isFinite hw hy), quantity_mul hw hx,
    quantity_mul hw hy]
  exact bounded_mono (mul_le_mul_of_nonneg_left (quantity_le h) pos)

theorem quantity_mul_infinite (hx : x.isNaN = false) (inf : x.isFinite = false)
    (hw : w.isFinite) (pos : 0 < quantity w) : quantity (x * w) = quantity x := by
  have product := unpacked_pack (canonical_mul (fits_unpacked x) (fits_unpacked w))
  change unpacked (x * w) = _ at product
  obtain ⟨s, hs⟩ := unpacked_of_infinite hx inf
  obtain ⟨m, e, hm, hw⟩ := unpacked_of_pos hw pos
  rw [quantity, quantity, product, hs, hw]
  cases s <;> rfl

theorem isNaN_mul_of_pos (hx : x.isNaN = false) (hw : w.isFinite) (pos : 0 < quantity w) :
    (x * w).isNaN = false := by
  rw [Bool.eq_false_iff, Ne, isNaN_mul_iff hx hw]
  exact fun lost => pos.ne' lost.2

/-- A positive factor keeps the order of infinite numbers too. -/
theorem mul_le_mul_of_pos (h : x ≤ y) (hw : w.isFinite) (pos : 0 < quantity w) :
    x * w ≤ y * w := by
  obtain ⟨hx, hy⟩ := isNaN_of_le h
  have order := quantity_le h
  have far_y := abs_le.1 (abs_quantity_le_far y)
  rw [le_iff (isNaN_mul_of_pos hx hw pos) (isNaN_mul_of_pos hy hw pos)]
  cases fx : x.isFinite with
  | false =>
      rw [quantity_mul_infinite hx fx hw pos]
      rcases quantity_of_infinite hx fx with qx | qx
      · have qy : quantity y = quantity x := le_antisymm (by linarith) order
        have fy : y.isFinite = false := by
          rw [Bool.eq_false_iff]
          intro fy
          have := abs_lt.1 (abs_quantity_lt fy)
          linarith [far_eq, top_pos]
        rw [quantity_mul_infinite hy fy hw pos, qy]
      · rw [qx]
        exact (abs_le.1 (abs_quantity_le_far (y * w))).1
  | true =>
      cases fy : y.isFinite with
      | true =>
          rw [quantity_mul fx hw, quantity_mul fy hw]
          exact bounded_mono (mul_le_mul_of_nonneg_right order pos.le)
      | false =>
          have lt := abs_lt.1 (abs_quantity_lt fx)
          rw [quantity_mul_infinite hy fy hw pos]
          rcases quantity_of_infinite hy fy with qy | qy
          · rw [qy]
            exact (abs_le.1 (abs_quantity_le_far (x * w))).2
          · linarith [far_eq, top_pos]

theorem isFinite_of_mul_zero (hx : x.isNaN = false) (hw : w.isFinite) (zero : quantity w = 0)
    (number : (x * w).isNaN = false) : x.isFinite := by
  by_contra inf
  rw [Bool.not_eq_true] at inf
  rw [(isNaN_mul_iff hx hw).2 ⟨inf, zero⟩] at number
  cases number

/-- A larger number stays larger, unless an infinite one meets a zero. -/
theorem mul_le_mul_of_nonneg (h : x ≤ y) (hw : w.isFinite) (pos : 0 ≤ quantity w)
    (hl : (x * w).isNaN = false) (hr : (y * w).isNaN = false) : x * w ≤ y * w := by
  rcases pos.eq_or_lt with zero | pos
  · obtain ⟨hx, hy⟩ := isNaN_of_le h
    have fx := isFinite_of_mul_zero hx hw zero.symm hl
    have fy := isFinite_of_mul_zero hy hw zero.symm hr
    rw [le_iff hl hr, quantity_mul fx hw, quantity_mul fy hw, ← zero]
    simp
  · exact mul_le_mul_of_pos h hw pos

theorem quantity_div_infinite (hx : x.isFinite) (hy : y.isNaN = false)
    (inf : y.isFinite = false) : (x / y).isNaN = false ∧ quantity (x / y) = 0 := by
  obtain ⟨t, ht⟩ := unpacked_of_infinite hy inf
  obtain ⟨s, hs⟩ : ∃ s, div Format.binary64 (unpacked x) (unpacked y) = .zero s := by
    rw [isFinite_eq] at hx
    rw [ht]
    cases hu : unpacked x with
    | notANumber | infinity _ => rw [hu] at hx; cases hx
    | zero s | finite s _ _ _ => exact ⟨s / t, rfl⟩
  have zero : unpacked (x / y) = .zero s := by
    change unpacked (.ofModel (.pack (div Format.binary64 (unpacked x) (unpacked y)))) = _
    rw [hs]
    exact unpacked_pack_of_fits (u := .zero s) trivial
  rw [isNaN_eq, quantity, zero]
  exact ⟨rfl, rfl⟩

/-- The larger dividend over the smaller divisor is the larger quotient. -/
theorem div_le_div_of_isFinite (h : x ≤ y) (pos : 0 ≤ quantity x) (hy : y.isFinite)
    (h' : d ≤ e) (posd : 0 < quantity d) : x / e ≤ y / d := by
  have hx := isFinite_of_between pos h hy
  have order := quantity_le h
  have order' := quantity_le h'
  obtain ⟨hd, he⟩ := isNaN_of_le h'
  cases fe : e.isFinite with
  | true =>
      have fd := isFinite_of_between posd.le h' fe
      have hne : quantity e ≠ 0 := by linarith
      have hnd : quantity d ≠ 0 := by linarith
      rw [le_iff (isNaN_div_of_isFinite hx fe hne) (isNaN_div_of_isFinite hy fd hnd),
        quantity_div hx fe hne, quantity_div hy fd hnd]
      exact bounded_mono (div_le_div₀ (pos.trans order) order posd order')
  | false =>
      obtain ⟨nl, ql⟩ := quantity_div_infinite hx he fe
      cases fd : d.isFinite with
      | false =>
          obtain ⟨nr, qr⟩ := quantity_div_infinite hy hd fd
          rw [le_iff nl nr, ql, qr]
      | true =>
          have hnd : quantity d ≠ 0 := by linarith
          rw [le_iff nl (isNaN_div_of_isFinite hy fd hnd), ql, quantity_div hy fd hnd,
            ← bounded_zero]
          exact bounded_mono (div_nonneg (pos.trans order) posd.le)

/-- An infinite number has no quotient that is bounded. -/
theorem isFinite_of_div_le (h : x / y ≤ z) (hz : z.isFinite) (hx : x.isNaN = false)
    (pos : 0 ≤ quantity x) (hy : y.isNaN = false) (posy : 0 < quantity y) : x.isFinite := by
  by_contra inf
  rw [Bool.not_eq_true] at inf
  obtain ⟨number, -⟩ := isNaN_of_le h
  have below := (quantity_le h).trans_lt (abs_lt.1 (abs_quantity_lt hz)).2
  have quotient : x / y = .ofModel (.pack (div Format.binary64 (unpacked x) (unpacked y))) := rfl
  obtain ⟨s, hs⟩ := unpacked_of_infinite hx inf
  cases s with
  | negative =>
      have := far_pos
      rw [quantity, hs] at pos
      change 0 ≤ -far at pos
      linarith
  | positive =>
      cases fy : y.isFinite with
      | false =>
          obtain ⟨t, ht⟩ := unpacked_of_infinite hy fy
          rw [quotient, hs, ht] at number
          change Float.isNaN (.ofModel (.pack .notANumber)) = false at number
          exact absurd number (by decide)
      | true =>
          obtain ⟨m, e, hm, hv⟩ := unpacked_of_pos fy posy
          have fits : Fits (.infinity (.positive / .positive)) := trivial
          rw [quotient, hs, hv, quantity] at below
          change value (unpacked (.ofModel (.pack (.infinity (.positive / .positive))))) < _
            at below
          rw [unpacked_pack_of_fits fits] at below
          change far < top at below
          linarith [far_eq, top_pos]

end Binary
end CreditRating

import CreditRating.Proofs.Text.ByteOrder
import CreditRating.Table

/-!
A table as a look-up. A name that is set decides for itself and for no other, and the entries
are exactly what is looked up, each name once and in the order of the bytes.
-/

namespace CreditRating

theorem lookup_cons_eq (k : String) (e : String × Float) (es : List (String × Float)) :
    (e :: es).lookup k = if k = e.1 then some e.2 else es.lookup k := by
  obtain ⟨name, value⟩ := e
  by_cases h : k = name
  · simp [h]
  · simp [List.lookup_cons, h, beq_eq_false_iff_ne.2 h]

/-- The sorted place of a new entry makes no difference to a look-up. -/
theorem lookup_insertByName (name k : String) (value : Float) (es : List (String × Float)) :
    (insertByName name value es).lookup k = if k = name then some value else es.lookup k := by
  induction es with
  | nil => exact lookup_cons_eq k (name, value) []
  | cons e es ih =>
      rw [insertByName]
      split
      · exact lookup_cons_eq k (name, value) (e :: es)
      · split
        · next same =>
            rw [lookup_cons_eq, lookup_cons_eq k e, ← same]
            split <;> rfl
        · next other =>
            rw [lookup_cons_eq, lookup_cons_eq k e, ih]
            by_cases first : k = e.1
            · have ne : k ≠ name := fun own => other (own.symm.trans first)
              rw [if_pos first, if_neg ne, if_pos first]
            · rw [if_neg first, if_neg first]

/-- A name that comes before all entries has none. -/
theorem lookup_of_forall_lt {k : String} {es : List (String × Float)} (h : ∀ e ∈ es, k < e.1) :
    es.lookup k = none := by
  induction es with
  | nil => rfl
  | cons e es ih =>
      have other : k ≠ e.1 := by
        intro same
        exact String.lt_irrefl k (same ▸ h e (.head es))
      rw [lookup_cons_eq, if_neg other]
      exact ih fun f hf => h f (.tail e hf)

theorem lookup_eq_some_iff_mem {k : String} {x : Float} {es : List (String × Float)}
    (sorted : es.Pairwise (·.1 < ·.1)) : es.lookup k = some x ↔ (k, x) ∈ es := by
  induction es with
  | nil => simp
  | cons e es ih =>
      obtain ⟨head, tail⟩ := List.pairwise_cons.1 sorted
      obtain ⟨name, value⟩ := e
      rw [lookup_cons_eq, List.mem_cons, Prod.mk.injEq]
      by_cases first : k = name
      · have later : (k, x) ∉ es := fun h => String.lt_irrefl k (first ▸ head (k, x) h)
        rw [if_pos first, Option.some.injEq, or_iff_left later, and_iff_right first, eq_comm]
      · rw [if_neg first, ih tail, or_iff_right fun same => first same.1]

namespace Table

@[simp] theorem get?_empty (name : String) : (∅ : Table).get? name = none := rfl

theorem get?_insert (t : Table) (name k : String) (value : Float) :
    (t.insert name value).get? k = if k = name then some value else t.get? k :=
  lookup_insertByName name k value t.entries

/-- A name has one entry, so being listed and being looked up are the same. -/
theorem get?_eq_some_iff {t : Table} {name : String} {x : Float} :
    t.get? name = some x ↔ (name, x) ∈ t.entries :=
  lookup_eq_some_iff_mem t.sorted

/-- Entries stand in the order of the bytes of their names. -/
theorem pairwise_bytes (t : Table) :
    t.entries.Pairwise fun d e => Utf8.bytes d.1 < Utf8.bytes e.1 :=
  t.sorted.imp Utf8.lt_iff_bytes_lt.1

end Table
end CreditRating

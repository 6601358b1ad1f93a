/-!
Numbers by name. A table lists each name once, in the order of the code points,
which is also the order of the UTF-8 bytes.
-/

namespace CreditRating

/-- The entries after `value` is set for `name`: in place of the name's entry if
it has one, else where the order wants it. -/
def insertByName (name : String) (value : Float) :
    List (String × Float) → List (String × Float)
  | [] => [(name, value)]
  | e :: es =>
      if name < e.1 then (name, value) :: e :: es
      else if name = e.1 then (name, value) :: es
      else e :: insertByName name value es

theorem mem_insertByName {name : String} {value : Float} {e : String × Float}
    {es : List (String × Float)} (h : e ∈ insertByName name value es) :
    e = (name, value) ∨ e ∈ es := by
  induction es with
  | nil => simpa [insertByName] using h
  | cons f fs ih =>
      simp only [insertByName] at h
      split at h
      · simpa using h
      · split at h <;> simp only [List.mem_cons] at h ⊢
        · exact h.imp_right .inr
        · rcases h with h | h
          · exact .inr (.inl h)
          · exact (ih h).imp_right .inr

theorem pairwise_insertByName (name : String) (value : Float) {es : List (String × Float)}
    (h : es.Pairwise (·.1 < ·.1)) : (insertByName name value es).Pairwise (·.1 < ·.1) := by
  induction es with
  | nil => simp [insertByName]
  | cons e es ih =>
      obtain ⟨he, hs⟩ := List.pairwise_cons.1 h
      simp only [insertByName]
      split
      · next hlt =>
          refine List.pairwise_cons.2 ⟨fun f hf => ?_, h⟩
          rcases List.mem_cons.1 hf with rfl | hf
          · exact hlt
          · exact String.lt_trans hlt (he f hf)
      · split
        · next heq => exact List.pairwise_cons.2 ⟨fun f hf => heq ▸ he f hf, hs⟩
        · next hnlt hne =>
            refine List.pairwise_cons.2 ⟨fun f hf => ?_, ih hs⟩
            rcases mem_insertByName hf with rfl | hf
            · exact Decidable.byContradiction fun hn =>
                hne (String.le_antisymm (String.not_lt.1 hn) (String.not_lt.1 hnlt))
            · exact he f hf

structure Table where
  entries : List (String × Float)
  sorted : entries.Pairwise (·.1 < ·.1)

namespace Table

def empty : Table := ⟨[], .nil⟩

instance : EmptyCollection Table := ⟨empty⟩

/-- Sets the number of a name. No number is refused. -/
def insert (t : Table) (name : String) (value : Float) : Table :=
  ⟨insertByName name value t.entries, pairwise_insertByName name value t.sorted⟩

def get? (t : Table) (name : String) : Option Float :=
  t.entries.lookup name

def insertAll (t : Table) (pairs : List (String × Float)) : Table :=
  pairs.foldl (fun t e => t.insert e.1 e.2) t

def ofList (pairs : List (String × Float)) : Table :=
  (∅ : Table).insertAll pairs

def size (t : Table) : Nat := t.entries.length

def isEmpty (t : Table) : Bool := t.entries.isEmpty

/-- The same names with numbers that compare equal: a NaN differs from itself,
and the two zeros are equal. -/
instance : BEq Table := ⟨fun s t => s.entries == t.entries⟩

instance : Repr Table := ⟨fun t n => reprPrec t.entries n⟩

end Table
end CreditRating

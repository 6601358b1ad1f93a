/-!
Answers that may be errors: the two ways in which a sequence of steps ends, and a
list of answers as one answer, for which the first error decides.
-/

namespace CreditRating

variable {ε ε' α β : Type}

theorem exists_of_bind {x : Except ε α} {f : α → Except ε β} {b : β}
    (h : (x >>= f) = .ok b) : ∃ a, x = .ok a ∧ f a = .ok b := by
  cases x with
  | error e => cases h
  | ok a => exact ⟨a, rfl, h⟩

theorem error_of_bind {x : Except ε α} {f : α → Except ε β} {e : ε}
    (h : x >>= f = .error e) : x = .error e ∨ ∃ a, x = .ok a ∧ f a = .error e := by
  cases x with
  | error e' =>
      cases h
      exact .inl rfl
  | ok a => exact .inr ⟨a, rfl, h⟩

theorem mapError_bind (f : ε → ε') (x : Except ε α) (g : α → Except ε β) :
    (x >>= g).mapError f = x.mapError f >>= fun a => (g a).mapError f := by
  cases x <;> rfl

def collect : List (Except ε α) → Except ε (List α)
  | [] => .ok []
  | .error e :: _ => .error e
  | .ok a :: xs => (collect xs).map (a :: ·)

theorem collect_append (as : List α) (xs : List (Except ε α)) :
    collect (as.map .ok ++ xs) = (collect xs).map (as ++ ·) := by
  induction as with
  | nil => cases h : collect xs <;> simp [h, Except.map]
  | cons a as ih =>
      simp only [List.map_cons, List.cons_append, collect, ih]
      cases collect xs <;> rfl

/-- The first error decides, whatever comes after it. -/
theorem collect_error (as : List α) (e : ε) (xs : List (Except ε α)) :
    collect (as.map .ok ++ .error e :: xs) = .error e := by
  rw [collect_append]
  rfl

theorem collect_ok (as : List α) : collect (as.map (.ok : α → Except ε α)) = .ok as := by
  have whole := collect_append as ([] : List (Except ε α))
  simpa [collect, Except.map] using whole

/-- Either there is no error, or there is a first one. -/
theorem exists_first_error (xs : List (Except ε α)) :
    (∃ as : List α, xs = as.map .ok) ∨
      ∃ (as : List α) (e : ε) (ys : List (Except ε α)), xs = as.map .ok ++ .error e :: ys := by
  induction xs with
  | nil => exact .inl ⟨[], rfl⟩
  | cons x xs ih =>
      cases x with
      | error e => exact .inr ⟨[], e, xs, rfl⟩
      | ok a =>
          obtain ⟨as, rfl⟩ | ⟨as, e, ys, rfl⟩ := ih
          · exact .inl ⟨a :: as, rfl⟩
          · exact .inr ⟨a :: as, e, ys, rfl⟩

theorem eq_of_collect_eq_ok {xs : List (Except ε α)} {as : List α} (h : collect xs = .ok as) :
    xs = as.map .ok := by
  obtain ⟨bs, rfl⟩ | ⟨bs, e, ys, rfl⟩ := exists_first_error xs
  · rw [collect_ok] at h
    rw [Except.ok.inj h]
  · rw [collect_error] at h
    cases h

theorem exists_of_collect_eq_error {xs : List (Except ε α)} {e : ε} (h : collect xs = .error e) :
    ∃ (as : List α) (ys : List (Except ε α)), xs = as.map .ok ++ .error e :: ys := by
  obtain ⟨bs, rfl⟩ | ⟨bs, e', ys, rfl⟩ := exists_first_error xs
  · rw [collect_ok] at h
    cases h
  · rw [collect_error] at h
    cases h
    exact ⟨bs, ys, rfl⟩

/-- A change of the errors does not touch the results. -/
theorem eq_map_ok_of_mapError {f : ε → ε'} {xs : List (Except ε α)} {as : List α}
    (h : xs.map (·.mapError f) = as.map .ok) : xs = as.map .ok := by
  induction xs generalizing as with
  | nil => simpa using h
  | cons x xs ih =>
      obtain ⟨a, as, rfl, head, tail⟩ := List.map_eq_cons_iff.1 h.symm
      cases x with
      | error e => cases head
      | ok b =>
          cases head
          rw [ih tail.symm, List.map_cons]

theorem exists_of_mapError {f : ε → ε'} {xs : List (Except ε α)} {as : List α} {e : ε'}
    {ys : List (Except ε' α)} (h : xs.map (·.mapError f) = as.map .ok ++ .error e :: ys) :
    ∃ e' ys', xs = as.map .ok ++ .error e' :: ys' ∧ f e' = e := by
  obtain ⟨us, vs, rfl, front, back⟩ := List.map_eq_append_iff.1 h
  obtain ⟨v, vs, rfl, first, -⟩ := List.map_eq_cons_iff.1 back
  rw [eq_map_ok_of_mapError front]
  cases v with
  | ok a => cases first
  | error e' =>
      cases first
      exact ⟨e', vs, rfl, rfl⟩

end CreditRating

import CreditRating.Text

/-!
Removal at both ends. What is left is the one part of a list that has nothing to
remove at its ends and only removable elements around it.
-/

namespace CreditRating
namespace Text

section

variable {α β : Type} {p q : α → Bool} {s l r : List α}

/-- Nothing at either end satisfies the test. -/
def Trimmed (p : α → Bool) (s : List α) : Prop :=
  (∀ a ∈ s.head?, p a = false) ∧ (∀ a ∈ s.getLast?, p a = false)

instance (s : List α) : Decidable (Trimmed p s) :=
  inferInstanceAs (Decidable (_ ∧ _))

theorem dropWhile_of_head (h : ∀ a ∈ s.head?, p a = false) : s.dropWhile p = s := by
  cases s with
  | nil => rfl
  | cons a s =>
      have ha : p a = false := h a rfl
      simp [ha]

theorem head_dropWhile (s : List α) : ∀ a ∈ (s.dropWhile p).head?, p a = false := by
  intro a ha
  have := List.head?_dropWhile_not p s
  simp_all

theorem trimBoth_eq (hl : ∀ a ∈ l, p a) (hs : Trimmed p s) (hr : ∀ a ∈ r, p a) :
    trimBoth p (l ++ s ++ r) = s := by
  have hr' : ∀ a ∈ r.reverse, p a := fun a ha => hr a (List.mem_reverse.1 ha)
  rw [trimBoth, List.append_assoc, List.dropWhile_append_of_pos hl]
  cases s with
  | nil =>
      rw [List.nil_append, ← List.append_nil r, List.dropWhile_append_of_pos hr]
      rfl
  | cons a s =>
      have front : (a :: s ++ r).dropWhile p = a :: s ++ r := dropWhile_of_head hs.1
      have back : ∀ b ∈ (a :: s).reverse.head?, p b = false := by
        rw [List.head?_reverse]
        exact hs.2
      rw [front, List.reverse_append, List.dropWhile_append_of_pos hr', dropWhile_of_head back,
        List.reverse_reverse]

/-- Only what satisfies the test has been dropped. -/
theorem exists_trimBoth (p : α → Bool) (s : List α) :
    ∃ l r, (∀ a ∈ l, p a) ∧ (∀ a ∈ r, p a) ∧ s = l ++ trimBoth p s ++ r := by
  have taken (t : List α) : ∀ a ∈ t.takeWhile p, p a := by
    intro a ha
    exact List.all_eq_true.1 List.all_takeWhile a ha
  have back := List.takeWhile_append_dropWhile (p := p) (l := (s.dropWhile p).reverse)
  refine ⟨s.takeWhile p, ((s.dropWhile p).reverse.takeWhile p).reverse, taken s,
    fun a ha => taken _ a (List.mem_reverse.1 ha), ?_⟩
  rw [List.append_assoc, trimBoth, ← List.reverse_append, back, List.reverse_reverse,
    List.takeWhile_append_dropWhile]

theorem mem_of_mem_trimBoth {a : α} (h : a ∈ trimBoth p s) : a ∈ s := by
  obtain ⟨l, r, -, -, e⟩ := exists_trimBoth p s
  rw [e]
  exact List.mem_append_left r (List.mem_append_right l h)

theorem trimBoth_eq_nil_iff : trimBoth p s = [] ↔ ∀ a ∈ s, p a := by
  constructor
  · intro h
    obtain ⟨l, r, hl, hr, e⟩ := exists_trimBoth p s
    rw [e, h, List.append_nil]
    exact List.forall_mem_append.2 ⟨hl, hr⟩
  · intro h
    have whole := trimBoth_eq (s := []) (r := []) h ⟨nofun, nofun⟩ nofun
    rwa [List.append_nil, List.append_nil] at whole

theorem trimmed_trimBoth (s : List α) : Trimmed p (trimBoth p s) := by
  have back := List.takeWhile_append_dropWhile (p := p) (l := (s.dropWhile p).reverse)
  have front : s.dropWhile p =
      trimBoth p s ++ ((s.dropWhile p).reverse.takeWhile p).reverse := by
    rw [trimBoth, ← List.reverse_append, back, List.reverse_reverse]
  refine ⟨?_, ?_⟩
  · intro a ha
    refine head_dropWhile s a ?_
    rw [front, List.head?_append, Option.mem_def.1 ha]
    rfl
  · rw [trimBoth, List.getLast?_reverse]
    exact head_dropWhile _

/-- Removing less first makes no difference. -/
theorem trimBoth_trimBoth (h : ∀ a, p a → q a) (s : List α) :
    trimBoth q (trimBoth p s) = trimBoth q s := by
  obtain ⟨l, r, hl, hr, e⟩ := exists_trimBoth p s
  obtain ⟨l', r', hl', hr', e'⟩ := exists_trimBoth q (trimBoth p s)
  have hlq : ∀ a ∈ l ++ l', q a := by
    intro a ha
    cases List.mem_append.1 ha with
    | inl ha => exact h a (hl a ha)
    | inr ha => exact hl' a ha
  have hrq : ∀ a ∈ r' ++ r, q a := by
    intro a ha
    cases List.mem_append.1 ha with
    | inl ha => exact hr' a ha
    | inr ha => exact h a (hr a ha)
  have whole : s = (l ++ l') ++ trimBoth q (trimBoth p s) ++ (r' ++ r) := by
    calc s = l ++ trimBoth p s ++ r := e
      _ = l ++ (l' ++ trimBoth q (trimBoth p s) ++ r') ++ r := by rw [← e']
      _ = (l ++ l') ++ trimBoth q (trimBoth p s) ++ (r' ++ r) := by simp only [List.append_assoc]
  have outer := trimBoth_eq hlq (trimmed_trimBoth (trimBoth p s)) hrq
  rw [← whole] at outer
  exact outer.symm

variable {f : α → List β} {q : β → Bool}

theorem dropWhile_flatMap (pass : ∀ a, p a = true → ∀ b ∈ f a, q b)
    (stop : ∀ a, p a = false → ∃ b t, f a = b :: t ∧ q b = false) (s : List α) :
    (s.flatMap f).dropWhile q = (s.dropWhile p).flatMap f := by
  induction s with
  | nil => rfl
  | cons a s ih =>
      cases ha : p a with
      | true => simp [ha, List.dropWhile_append_of_pos (pass a ha), ih]
      | false =>
          obtain ⟨b, t, e, hb⟩ := stop a ha
          simp [ha, e, hb]

/-- Removal from a list of parts that go as a whole or stay at both ends. -/
theorem trimBoth_flatMap (pass : ∀ a, p a = true → ∀ b ∈ f a, q b)
    (stop : ∀ a, p a = false → f a ≠ [] ∧ ∀ b ∈ f a, q b = false) (s : List α) :
    trimBoth q (s.flatMap f) = (trimBoth p s).flatMap f := by
  have front (a : α) (ha : p a = false) : ∃ b t, f a = b :: t ∧ q b = false := by
    obtain ⟨ne, out⟩ := stop a ha
    cases e : f a with
    | nil => exact absurd e ne
    | cons b t => exact ⟨b, t, rfl, out b (by simp [e])⟩
  have back (a : α) (ha : p a = false) : ∃ b t, (f a).reverse = b :: t ∧ q b = false := by
    obtain ⟨ne, out⟩ := stop a ha
    cases e : (f a).reverse with
    | nil => exact absurd (List.reverse_eq_nil_iff.1 e) ne
    | cons b t => exact ⟨b, t, rfl, out b (List.mem_reverse.1 (by simp [e]))⟩
  have passBack (a : α) (ha : p a = true) : ∀ b ∈ (f a).reverse, q b :=
    fun b hb => pass a ha b (List.mem_reverse.1 hb)
  rw [trimBoth, dropWhile_flatMap pass front, List.reverse_flatMap]
  change ((((s.dropWhile p).reverse).flatMap fun a => (f a).reverse).dropWhile q).reverse = _
  rw [dropWhile_flatMap passBack back, List.reverse_flatMap]
  simp [trimBoth, Function.comp_def]

end

end Text
end CreditRating

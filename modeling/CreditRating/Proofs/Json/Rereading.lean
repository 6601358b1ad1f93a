import CreditRating.Json
import CreditRating.Proofs.Json.Numbers

/-!
Printed documents read back. The text of a value is one document, and it is read as
the tree of the value: no character of a string and no item or member is lost.
-/

namespace CreditRating
namespace Json

open Decimal (document)

theorem skipSpace_append {gap : List Char} (h : ∀ c ∈ gap, isSpace c) (s : List Char) :
    skipSpace (gap ++ s) = skipSpace s :=
  List.dropWhile_append_of_pos h

theorem skipSpace_of_not_isSpace {c : Char} (h : isSpace c = false) (s : List Char) :
    skipSpace (c :: s) = c :: s := by
  simp [skipSpace, h]

theorem skipSpace_skipSpace (s : List Char) : skipSpace (skipSpace s) = skipSpace s :=
  List.dropWhile_idempotent _ s

theorem isSpace_newLine (level : ℕ) : ∀ c ∈ newLine level, isSpace c := by
  intro c hc
  obtain rfl | hc := List.mem_cons.1 hc
  · rfl
  · rw [List.eq_of_mem_replicate hc]
    rfl

theorem not_isSpace_of_isWordChar {c : Char} (h : isWordChar c) : isSpace c = false := by
  by_contra space
  simp only [isSpace, Bool.not_eq_false, Bool.or_eq_true, beq_iff_eq] at space
  obtain ((rfl | rfl) | rfl) | rfl := space <;> cases h

section

variable {c x : Char} (s : List Char)

theorem readString_quote : readString ('"' :: s) = some ([], s) := by
  rw [readString.eq_def]
  exact if_pos rfl

theorem readString_escape (h : escape? c = some x) :
    readString ('\\' :: c :: s) = (readString s).map (prepend x) := by
  rw [readString, if_neg (by decide), if_pos rfl, h]
  · rfl
  · rintro _ _ _ _ _ rfl
    cases h

theorem readString_hexQuad {a b d e : Char} {n : ℕ} (value : Yaml.hexValue? [a, b, d, e] = some n)
    (single : isHighSurrogate n = false) (h : Yaml.charOf? n = some x) :
    readString ('\\' :: 'u' :: a :: b :: d :: e :: s) = (readString s).map (prepend x) := by
  rw [readString, if_neg (by decide), if_pos rfl]
  simp [value, single, h]

theorem readString_plain (quote : c ≠ '"') (backslash : c ≠ '\\') (h : ¬ c.toNat < 0x20) :
    readString (c :: s) = (readString s).map (prepend c) := by
  rw [readString.eq_def]
  simp [quote, backslash, h]

end

theorem hexQuad_control : ∀ n < 0x20,
    hexQuad n = ['0', '0', (n / 16).digitChar, (n % 16).digitChar] ∧
      Yaml.hexValue? ['0', '0', (n / 16).digitChar, (n % 16).digitChar] = some n := by
  decide

theorem charOf?_toNat (c : Char) : Yaml.charOf? c.toNat = some c := by
  have valid : c.toNat.isValidChar := c.valid
  rw [Yaml.charOf?, dif_pos valid]
  rfl

/-- Every character is read as itself, whether it is escaped or not. -/
theorem readString_escapeChar (c : Char) (s : List Char) :
    readString (escapeChar c ++ s) = (readString s).map (prepend c) := by
  rw [escapeChar]
  split_ifs with quote backslash _ _ _ _ _ control
  iterate 7
    · subst c
      exact readString_escape s rfl
  · obtain ⟨quad, value⟩ := hexQuad_control c.toNat control
    have single : isHighSurrogate c.toNat = false := by
      simp [isHighSurrogate]
      omega
    rw [quad]
    exact readString_hexQuad s value single (charOf?_toNat c)
  · exact readString_plain s quote backslash control

theorem readString_escaped (t rest : List Char) :
    readString (t.flatMap escapeChar ++ '"' :: rest) = some (t, rest) := by
  induction t with
  | nil => exact readString_quote rest
  | cons c t ih =>
      rw [List.flatMap_cons, List.append_assoc, readString_escapeChar, ih]
      rfl

theorem quote_append (s : String) (rest : List Char) :
    quote s ++ rest = '"' :: (s.toList.flatMap escapeChar ++ '"' :: rest) := by
  simp [quote]

theorem readValue_congr (n : ℕ) {s t : List Char} (h : skipSpace s = skipSpace t) :
    readValue n s = readValue n t := by
  cases n with
  | zero => rw [readValue, readValue]
  | succ n => rw [readValue, readValue, h]

theorem readItems_congr (n : ℕ) {s t : List Char} (h : skipSpace s = skipSpace t) :
    readItems n s = readItems n t := by
  cases n with
  | zero => rw [readItems, readItems]
  | succ n => rw [readItems, readItems, readValue_congr n h]

theorem readMembers_congr (n : ℕ) {s t : List Char} (h : skipSpace s = skipSpace t) :
    readMembers n s = readMembers n t := by
  cases n with
  | zero => rw [readMembers, readMembers]
  | succ n => rw [readMembers, readMembers, h]

/-- No word goes on in the text. -/
def EndsWord (s : List Char) : Prop := ∀ c ∈ s.head?, isWordChar c = false

theorem takeWhile_word {w s : List Char} (hw : ∀ c ∈ w, isWordChar c) (hs : EndsWord s) :
    (w ++ s).takeWhile isWordChar = w ∧ (w ++ s).dropWhile isWordChar = s := by
  rw [List.takeWhile_append_of_pos hw, List.dropWhile_append_of_pos hw]
  cases s with
  | nil => simp
  | cons c s => simp [hs c rfl]

theorem readValue_word (n : ℕ) {w s : List Char} {v : Tree} (hw : ∀ c ∈ w, isWordChar c)
    (ne : w ≠ []) (hs : EndsWord s) (h : word? w = some v) :
    readValue (n + 1) (w ++ s) = some (v, s) := by
  obtain ⟨take, drop⟩ := takeWhile_word hw hs
  obtain ⟨c, w, rfl⟩ := List.exists_cons_of_ne_nil ne
  have word : isWordChar c := hw c (.head w)
  have start : skipSpace (c :: w ++ s) = c :: w ++ s :=
    skipSpace_of_not_isSpace (not_isSpace_of_isWordChar word) (w ++ s)
  have other {d : Char} (hd : isWordChar d = false) (t : List Char) : c :: w ++ s ≠ d :: t := by
    intro eq
    rw [(List.cons.inj eq).1, hd] at word
    cases word
  rw [readValue, start]
  split
  · next eq => exact absurd eq (other rfl _)
  · next eq => exact absurd eq (other rfl _)
  · next eq => exact absurd eq (other rfl _)
  · rw [take, drop, h]
    rfl

theorem readValue_quote (n : ℕ) (t : String) (s : List Char) :
    readValue (n + 1) (quote t ++ s) = some (.string t, s) := by
  rw [quote_append, readValue, skipSpace_of_not_isSpace (by decide)]
  simp only [readString_escaped, Option.map_some, String.ofList_toList]

/-- Nothing that can be read begins with a bracket that closes. -/
theorem skipSpace_ne_of_readItems {n : ℕ} {s : List Char} {r : List Tree × List Char}
    (h : readItems n s = some r) (t : List Char) : skipSpace s ≠ ']' :: t := by
  intro eq
  have none (n : ℕ) : readValue n s = none := by
    cases n with
    | zero => rw [readValue]
    | succ n =>
        rw [readValue, eq]
        rfl
  cases n with
  | zero => rw [readItems] at h; cases h
  | succ n => rw [readItems, none] at h; cases h

theorem skipSpace_ne_of_readMembers {n : ℕ} {s : List Char} {r : List (String × Tree) × List Char}
    (h : readMembers n s = some r) (t : List Char) : skipSpace s ≠ '\x7d' :: t := by
  intro eq
  cases n with
  | zero => rw [readMembers] at h; cases h
  | succ n => rw [readMembers, eq] at h; cases h

/-- An opening bracket with items behind it begins an array, which is not empty. -/
theorem readValue_array {n : ℕ} {s rest : List Char} {vs : List Tree}
    (h : readItems n s = some (vs, rest)) :
    readValue (n + 1) ('[' :: s) = some (.array vs, rest) := by
  rw [readValue, skipSpace_of_not_isSpace (by decide)]
  split
  · next eq => cases eq
  · next eq =>
      cases eq
      split
      · next eq => exact absurd eq (skipSpace_ne_of_readItems h _)
      · rw [readItems_congr n (skipSpace_skipSpace s), h]
        rfl
  · next eq => cases eq
  · next _ bracket _ => exact absurd rfl (bracket s)

theorem readValue_object {n : ℕ} {s rest : List Char} {ms : List (String × Tree)}
    (h : readMembers n s = some (ms, rest)) :
    readValue (n + 1) ('\x7b' :: s) = some (.object ms, rest) := by
  rw [readValue, skipSpace_of_not_isSpace (by decide)]
  split
  · next eq => cases eq
  · next eq => cases eq
  · next eq =>
      cases eq
      split
      · next eq => exact absurd eq (skipSpace_ne_of_readMembers h _)
      · rw [readMembers_congr n (skipSpace_skipSpace s), h]
        rfl
  · next _ _ brace => exact absurd rfl (brace s)

theorem goesOn?_comma (closing : Char) (s : List Char) :
    goesOn? closing (',' :: s) = some (true, s) := by
  rw [goesOn?, skipSpace_of_not_isSpace (by decide)]
  rfl

theorem goesOn?_closing {closing : Char} (other : closing ≠ ',') (shown : isSpace closing = false)
    (level : ℕ) (s : List Char) :
    goesOn? closing (newLine level ++ closing :: s) = some (false, s) := by
  rw [goesOn?, skipSpace_append (isSpace_newLine level), skipSpace_of_not_isSpace shown]
  simp [other]

section

variable {n : ℕ} {s t u rest : List Char} {v : Tree} {more : Bool}
  (h : readValue n s = some (v, t))
include h

theorem readItems_succ {vs : List Tree} (next : goesOn? ']' t = some (more, u))
    (hu : (if more then readItems n u else some ([], u)) = some (vs, rest)) :
    readItems (n + 1) s = some (v :: vs, rest) := by
  simp only [readItems, h, next, hu, Option.bind_eq_bind, Option.bind_some, Option.map_some]

theorem readMembers_succ (name : String) {ms : List (String × Tree)}
    (next : goesOn? '\x7d' t = some (more, u))
    (hu : (if more then readMembers n u else some ([], u)) = some (ms, rest)) :
    readMembers (n + 1) (quote name ++ ':' :: s) = some ((name, v) :: ms, rest) := by
  rw [quote_append, readMembers, skipSpace_of_not_isSpace (by decide)]
  simp only [readString_escaped, Option.bind_eq_bind, Option.bind_some]
  rw [skipSpace_of_not_isSpace (by decide)]
  simp only [h, next, hu, Option.bind_some, Option.map_some, String.ofList_toList]

end

mutual

/-- What the text of a value is read as. A number that is not finite is lost. -/
def Value.tree : Value → Tree
  | .integer n => .number (toString n).toList
  | .number x => if x.isFinite then .number (document.text x).toList else .null
  | .string s => .string s
  | .array items => .array (Value.trees items)
  | .object members => .object (Value.memberTrees members)

def Value.trees : List Value → List Tree
  | [] => []
  | v :: vs => v.tree :: Value.trees vs

def Value.memberTrees : List (String × Value) → List (String × Tree)
  | [] => []
  | (name, v) :: ms => (name, v.tree) :: Value.memberTrees ms

end

theorem endsWord_comma (s : List Char) : EndsWord (',' :: s) := by
  rintro _ ⟨⟩
  rfl

theorem endsWord_newLine (level : ℕ) (s : List Char) : EndsWord (newLine level ++ s) := by
  rintro _ ⟨⟩
  rfl

theorem NumberText.ne_nil {w : List Char} (h : NumberText w) : w ≠ [] := by
  rintro rfl
  exact absurd h.isNumber (by decide)

theorem toList_document_text_of_not_finite {x : Float} (h : ¬ x.isFinite) :
    (document.text x).toList = ['n', 'u', 'l', 'l'] := by
  rw [document_text_of_not_finite h]
  rfl

/-- A number is read back, and what is not finite is read as null. -/
theorem readValue_number (n : ℕ) (x : Float) {s : List Char} (hs : EndsWord s) :
    readValue (n + 1) ((document.text x).toList ++ s) = some ((Value.number x).tree, s) := by
  rw [Value.tree]
  split
  · next finite =>
      have number := (document_text finite).1
      exact readValue_word n number.word number.ne_nil hs number.word?
  · next infinite =>
      rw [toList_document_text_of_not_finite infinite]
      exact readValue_word n (List.all_eq_true.1 rfl) (List.cons_ne_nil _ _) hs rfl

def stacked (level : ℕ) (items : List (List Char)) : List Char :=
  (',' :: newLine level).intercalate items

theorem stacked_singleton (level : ℕ) (a : List Char) : stacked level [a] = a := by
  simp [stacked, List.intercalate]

theorem stacked_cons_cons (level : ℕ) (a b : List Char) (l : List (List Char)) :
    stacked level (a :: b :: l) = a ++ ',' :: (newLine level ++ stacked level (b :: l)) := by
  simp [stacked, List.intercalate_cons_cons]

theorem block_cons_append (opening closing : Char) (level : ℕ) (a : List Char)
    (l : List (List Char)) (s : List Char) :
    block opening closing level (a :: l) ++ s =
      opening :: (newLine (level + 1) ++
        (stacked (level + 1) (a :: l) ++ (newLine level ++ closing :: s))) := by
  simp [block, stacked]

theorem length_stacked_lt {opening closing : Char} {level n : ℕ} {a : List Char}
    {l : List (List Char)} (h : (block opening closing level (a :: l)).length ≤ n + 1) :
    (stacked (level + 1) (a :: l)).length < n := by
  simp only [block, stacked, List.length_append, List.length_cons, newLine] at h ⊢
  omega

theorem block_ne_nil (opening closing : Char) (level : ℕ) (items : List (List Char)) :
    block opening closing level items ≠ [] := by
  cases items <;> simp [block]

theorem pretty_ne_nil (level : ℕ) (v : Value) : pretty level v ≠ [] := by
  cases v <;> rw [pretty]
  case integer n => exact (numberText_toString n).ne_nil
  case number x =>
    by_cases finite : x.isFinite
    · exact (document_text finite).1.ne_nil
    · rw [toList_document_text_of_not_finite finite]
      exact List.cons_ne_nil _ _
  case string s => exact List.cons_ne_nil _ _
  all_goals exact block_ne_nil _ _ _ _

mutual

/-- The text of a value is read as the tree of the value, whatever follows it. The length of
the text is fuel enough, and the induction is on the fuel. -/
theorem readValue_pretty (v : Value) (level : ℕ) {n : ℕ} (hn : (pretty level v).length ≤ n)
    {rest : List Char} (hr : EndsWord rest) :
    readValue n (pretty level v ++ rest) = some (v.tree, rest) := by
  obtain ⟨n, rfl⟩ : ∃ m, n = m + 1 :=
    ⟨n - 1, by have := List.length_pos_iff.2 (pretty_ne_nil level v); omega⟩
  match v with
  | .integer k =>
      have number := numberText_toString k
      exact readValue_word n number.word number.ne_nil hr number.word?
  | .number x => exact readValue_number n x hr
  | .string s => exact readValue_quote n s rest
  | .array [] | .object [] => rfl
  | .array (v :: vs) =>
      rw [pretty, prettyItems] at hn ⊢
      rw [block_cons_append]
      refine readValue_array ?_
      rw [readItems_congr n (skipSpace_append (isSpace_newLine _) _)]
      refine readItems_pretty v vs (level + 1) level ?_ rest
      exact length_stacked_lt hn
  | .object ((name, v) :: ms) =>
      rw [pretty, prettyMembers] at hn ⊢
      rw [block_cons_append]
      refine readValue_object ?_
      rw [readMembers_congr n (skipSpace_append (isSpace_newLine _) _)]
      refine readMembers_pretty name v ms (level + 1) level ?_ rest
      exact length_stacked_lt hn
termination_by n

theorem readItems_pretty (v : Value) (vs : List Value) (level outer : ℕ) {n : ℕ}
    (hn : (stacked level (prettyItems level (v :: vs))).length < n) (rest : List Char) :
    readItems n (stacked level (prettyItems level (v :: vs)) ++ (newLine outer ++ ']' :: rest)) =
      some (Value.trees (v :: vs), rest) := by
  obtain ⟨n, rfl⟩ : ∃ m, n = m + 1 := ⟨n - 1, by omega⟩
  match vs with
  | [] =>
      rw [prettyItems, prettyItems, stacked_singleton] at hn ⊢
      have value := readValue_pretty (n := n) v level (Nat.lt_succ_iff.1 hn)
        (endsWord_newLine outer (']' :: rest))
      exact readItems_succ value (goesOn?_closing (by decide) rfl outer rest) rfl
  | w :: ws =>
      rw [prettyItems, prettyItems, stacked_cons_cons] at hn ⊢
      rw [← prettyItems] at hn ⊢
      simp only [List.length_append, List.length_cons] at hn
      rw [List.append_assoc, List.cons_append, List.append_assoc]
      refine readItems_succ (readValue_pretty v level (by omega) (endsWord_comma _))
        (goesOn?_comma _ _) ?_
      rw [if_pos rfl, readItems_congr n (skipSpace_append (isSpace_newLine _) _)]
      exact readItems_pretty w ws level outer (by omega) rest
termination_by n

theorem readMembers_pretty (name : String) (v : Value) (ms : List (String × Value))
    (level outer : ℕ) {n : ℕ}
    (hn : (stacked level (prettyMembers level ((name, v) :: ms))).length < n) (rest : List Char) :
    readMembers n
      (stacked level (prettyMembers level ((name, v) :: ms)) ++ (newLine outer ++ '\x7d' :: rest)) =
      some (Value.memberTrees ((name, v) :: ms), rest) := by
  obtain ⟨n, rfl⟩ : ∃ m, n = m + 1 := ⟨n - 1, by omega⟩
  -- A blank stands before the value.
  have blank (s : List Char) : readValue n (' ' :: s) = readValue n s := readValue_congr n rfl
  match ms with
  | [] =>
      rw [prettyMembers, prettyMembers, stacked_singleton] at hn ⊢
      simp only [List.length_append, List.length_cons] at hn
      rw [List.append_assoc, List.cons_append, List.cons_append]
      have value := readValue_pretty (n := n) v level (by omega)
        (endsWord_newLine outer ('\x7d' :: rest))
      exact readMembers_succ ((blank _).trans value) name
        (goesOn?_closing (by decide) rfl outer rest) rfl
  | (next, w) :: ms =>
      rw [prettyMembers, prettyMembers, stacked_cons_cons] at hn ⊢
      rw [← prettyMembers] at hn ⊢
      simp only [List.length_append, List.length_cons] at hn
      rw [List.append_assoc, List.append_assoc, List.cons_append, List.cons_append,
        List.cons_append, List.append_assoc]
      refine readMembers_succ ((blank _).trans (readValue_pretty v level (by omega)
        (endsWord_comma _))) name (goesOn?_comma _ _) ?_
      rw [if_pos rfl, readMembers_congr n (skipSpace_append (isSpace_newLine _) _)]
      exact readMembers_pretty next w ms level outer (by omega) rest
termination_by n

end

/-- The text of a value is one document. -/
theorem read_pretty (v : Value) : read (String.ofList (pretty 0 v)) = some v.tree := by
  have value : readValue ((pretty 0 v).length + 1) (pretty 0 v ++ []) = some (v.tree, []) :=
    readValue_pretty v 0 (Nat.le_succ _) nofun
  rw [List.append_nil] at value
  rw [read, String.toList_ofList, String.length_ofList, value]
  rfl

end Json
end CreditRating

import CreditRating.Proofs.ClientFile.Loading

/-!
A file as the outcomes of its records, of which the first error decides for the
whole. Apart from the places that an error names, the outcome of a record depends
on nothing but its fields.
-/

namespace CreditRating

def ReadFault.unplaced : ReadFault → ReadFault
  | notText _ field validBytes => .notText .origin field validBytes
  | file fault => .file fault

namespace LoadError

/-- The error without the line and the position that it names. -/
def unplaced : LoadError → LoadError
  | unreadable _ fault => .unreadable 0 fault.unplaced
  | fieldCount _ found => .fieldCount 0 found
  | invalidNumber _ column value => .invalidNumber 0 column value
  | missingId _ => .missingId 0
  | e => e

def line? : LoadError → Option ℕ
  | unreadable line _ | fieldCount line _ | invalidNumber line _ _ | missingId line => some line
  | unopened _ _ | noClients => none

def isUnreadable : LoadError → Bool
  | unreadable _ _ => true
  | _ => false

end LoadError

namespace ClientFile

open LoadError (unplaced)

/-- What the records below the header give, one after the other. -/
def outcomesOf : List Csv.Row → List (Except LoadError Client)
  | _ :: r :: rs => readRow .origin r :: rs.map fun r => readRow r.start r
  | _ => []

def outcomes (bs : List UInt8) : List (Except LoadError Client) :=
  outcomesOf (Csv.rows bs)

/-- Reading the records one after the other is collecting what each of them gives. -/
theorem readRows_eq (rs : List Csv.Row) :
    readRows rs = collect (rs.map fun r => readRow r.start r) := by
  induction rs with
  | nil => rfl
  | cons r rs ih =>
      rw [readRows, List.mapM_cons]
      change (do let c ← readRow r.start r; let cs ← readRows rs; return c :: cs) = _
      rw [ih, List.map_cons]
      cases readRow r.start r with
      | error e => rfl
      | ok c =>
          rw [collect]
          cases collect (rs.map fun r => readRow r.start r) <;> rfl

/-- A file has no clients, or gives what its records give. -/
theorem parse_eq (bs : List UInt8) :
    parse bs = if outcomes bs = [] then .error .noClients else collect (outcomes bs) := by
  rw [parse, outcomes]
  cases Csv.rows bs with
  | nil => rfl
  | cons r₀ rs =>
      cases rs with
      | nil => rfl
      | cons r rs =>
          rw [readRecords, outcomesOf, if_neg (List.cons_ne_nil _ _), readRows_eq]
          cases readRow .origin r with
          | error e => rfl
          | ok c =>
              rw [collect]
              cases collect (rs.map fun r => readRow r.start r) <;> rfl

theorem number_error {α : Type} {line : ℕ} {column : NumberColumn}
    {read? : List Char → Option α} {s : List Char} {e : LoadError}
    (h : number line column read? s = .error e) :
    e.isUnreadable = false ∧ e.line? = some line := by
  rw [number] at h
  split at h
  · cases h
  · cases h
    exact ⟨rfl, rfl⟩

theorem clientOf_error {line : ℕ} {ts : List (List Char)} {e : LoadError}
    (h : clientOf line ts = .error e) :
    e.isUnreadable = false ∧ e.line? = some line := by
  unfold clientOf at h
  split at h
  · split at h
    · cases h
      exact ⟨rfl, rfl⟩
    · obtain h | ⟨age, -, h⟩ := error_of_bind h
      · exact number_error h
      · obtain h | ⟨income, -, h⟩ := error_of_bind h
        · exact number_error h
        · obtain h | ⟨debt, -, h⟩ := error_of_bind h
          · exact number_error h
          · cases h
  · cases h
    exact ⟨rfl, rfl⟩

/-- A record that is no text is reported where it was asked for, others where it begins. -/
theorem readRow_error {asked : Csv.Position} {r : Csv.Row} {e : LoadError}
    (h : readRow asked r = .error e) :
    e.line? = some (if e.isUnreadable then asked.line else r.start.line) := by
  rw [readRow] at h
  split at h
  · cases h
    rfl
  · obtain ⟨readable, line⟩ := clientOf_error h
    simp [readable, line]

theorem exists_readRow_of_mem_outcomes {bs : List UInt8} {x : Except LoadError Client}
    (h : x ∈ outcomes bs) : ∃ asked, ∃ r ∈ Csv.rows bs, readRow asked r = x := by
  rw [outcomes] at h
  unfold outcomesOf at h
  split at h
  · next head first rest rows =>
      rw [rows]
      obtain rfl | h := List.mem_cons.1 h
      · exact ⟨.origin, first, .tail head (.head rest), rfl⟩
      · obtain ⟨r, hr, outcome⟩ := List.mem_map.1 h
        exact ⟨r.start, r, .tail head (.tail first hr), outcome⟩
  · cases h

theorem noClients_not_mem_outcomes (bs : List UInt8) : .error .noClients ∉ outcomes bs := by
  intro h
  obtain ⟨asked, r, -, outcome⟩ := exists_readRow_of_mem_outcomes h
  cases readRow_error outcome

theorem parse_eq_noClients_iff {bs : List UInt8} :
    parse bs = .error .noClients ↔ outcomes bs = [] := by
  rw [parse_eq]
  split
  · next none => exact iff_of_true rfl none
  · next some =>
      refine iff_of_false ?_ some
      intro h
      obtain ⟨cs, ys, hs⟩ := exists_of_collect_eq_error h
      apply noClients_not_mem_outcomes bs
      rw [hs]
      simp

theorem parse_eq_ok_iff {bs : List UInt8} {cs : List Client} :
    parse bs = .ok cs ↔ cs ≠ [] ∧ outcomes bs = cs.map .ok := by
  rw [parse_eq]
  split
  · next none =>
      refine iff_of_false nofun ?_
      rintro ⟨ne, h⟩
      rw [none] at h
      exact ne (List.map_eq_nil_iff.1 h.symm)
  · next some =>
      constructor
      · intro h
        have all := eq_of_collect_eq_ok h
        refine ⟨?_, all⟩
        rintro rfl
        exact some all
      · rintro ⟨-, h⟩
        rw [h, collect_ok]

/-- Every client of a file was read from a record of it. -/
theorem exists_readRow_of_parse {bs : List UInt8} {cs : List Client} (h : parse bs = .ok cs) :
    ∀ c ∈ cs, ∃ asked, ∃ r ∈ Csv.rows bs, readRow asked r = .ok c := by
  intro c hc
  apply exists_readRow_of_mem_outcomes
  rw [(parse_eq_ok_iff.1 h).2]
  exact List.mem_map_of_mem hc

/-- A file fails with the first error of its records. -/
theorem parse_eq_error_iff {bs : List UInt8} {e : LoadError} (he : e ≠ .noClients) :
    parse bs = .error e ↔
      ∃ (cs : List Client) (ys : List (Except LoadError Client)),
        outcomes bs = cs.map .ok ++ .error e :: ys := by
  rw [parse_eq]
  split
  · next none =>
      constructor
      · intro h
        exact absurd (Except.error.inj h).symm he
      · rintro ⟨cs, ys, h⟩
        rw [none] at h
        simp at h
  · constructor
    · exact exists_of_collect_eq_error
    · rintro ⟨cs, ys, h⟩
      rw [h, collect_error]

theorem unplaced_readFields (p q : Csv.Position) (n : ℕ) (fs : List (List UInt8)) :
    (readFields p n fs).mapError ReadFault.unplaced =
      (readFields q n fs).mapError ReadFault.unplaced := by
  induction fs generalizing n with
  | nil => rfl
  | cons f fs ih =>
      have rest := ih (n + 1)
      rw [readFields, readFields]
      cases readField f with
      | error validBytes => rfl
      | ok s =>
          cases hp : readFields p (n + 1) fs <;> cases hq : readFields q (n + 1) fs <;>
            simp_all [Except.mapError, Except.map]

theorem unplaced_number {α : Type} (line line' : ℕ) (column : NumberColumn)
    (read? : List Char → Option α) (s : List Char) :
    (number line column read? s).mapError unplaced =
      (number line' column read? s).mapError unplaced := by
  rw [number, number]
  cases read? s <;> rfl

theorem unplaced_clientOf (line line' : ℕ) (ts : List (List Char)) :
    (clientOf line ts).mapError unplaced = (clientOf line' ts).mapError unplaced := by
  unfold clientOf
  split
  · split
    · rfl
    · simp only [mapError_bind]
      rw [unplaced_number line line']
      refine bind_congr fun age => ?_
      rw [unplaced_number line line']
      refine bind_congr fun income => ?_
      rw [unplaced_number line line']
  · rfl

theorem unplaced_readRow {r r' : Csv.Row} (h : r.fields = r'.fields) (p q : Csv.Position) :
    (readRow p r).mapError unplaced = (readRow q r').mapError unplaced := by
  have fields := unplaced_readFields p q 0 r.fields
  rw [readRow, readRow, ← h]
  cases hp : readFields p 0 r.fields with
  | error e =>
      cases hq : readFields q 0 r.fields with
      | ok ts =>
          rw [hp, hq] at fields
          cases fields
      | error e' =>
          rw [hp, hq] at fields
          have same : e.unplaced = e'.unplaced := Except.error.inj fields
          simp only [Except.mapError, unplaced, same]
  | ok ts =>
      cases hq : readFields q 0 r.fields with
      | error e' =>
          rw [hp, hq] at fields
          cases fields
      | ok ts' =>
          rw [hp, hq] at fields
          obtain rfl : ts = ts' := Except.ok.inj fields
          exact unplaced_clientOf _ _ ts

end ClientFile
end CreditRating

import CreditRating.Proofs.ClientFile.Loading
import CreditRating.Proofs.Policy.Breaches
import CreditRating.Proofs.Policy.Multipliers
import CreditRating.Proofs.Score.Account

/-!
The countries of a policy and the countries of clients. Fields of a file are read without the white
space around them, so no client has a country with such white space. The check of a policy asks for
less: it refuses a code that is nothing but white space.
-/

namespace CreditRating

/-- Some file has a client of the country. -/
inductive ClientFile.Knows (country : String) : Prop
  | intro {bs : List UInt8} {cs : List Client} {c : Client} (loaded : parse bs = .ok cs)
      (mem : c ∈ cs) (same : c.country = country)

/-- A client is read with any country that has no white space around it. -/
theorem ClientFile.knows_iff {country : String} :
    Knows country ↔ Text.Trimmed Text.isBlank country.toList := by
  constructor
  · rintro ⟨loaded, mem, rfl⟩
    exact ((loadable_of_parse loaded).2 _ mem).trimmed _ (by simp)
  · intro trimmed
    let c : Client := ⟨"C1", "", country, "", 0, 0.0, "", "", 0.0, 0.0⟩
    have id : Text.Trimmed Text.isBlank "C1".toList := by decide
    have empty : Text.Trimmed Text.isBlank "".toList := by decide
    have loadable : c.Loadable := by
      refine ⟨rfl, (by decide : "C1" ≠ ""), ?_⟩
      simp only [List.forall_mem_cons]
      exact ⟨id, empty, trimmed, empty, empty, empty, nofun⟩
    obtain ⟨bs, loaded⟩ := exists_parse_eq_ok.2
      ⟨List.cons_ne_nil c [], List.forall_mem_singleton.2 loadable⟩
    exact ⟨loaded, .head [], rfl⟩

/-- A multiplier is the last step of a score. -/
theorem steps_of_multiplier {e : Engine} {c : Client} {m : Float}
    (h : e.multiplier? c.country = some m) (weights : Table) :
    (explain e weights c).steps.getLast? =
      some ⟨.country c.country m, ownTotal e weights c, ownTotal e weights c * m⟩ := by
  have last : findings e weights c =
      findings e.withoutCountries weights c ++ [.country c.country m] := by
    rw [findings_eq, h]
    rfl
  rw [explain, last, stepsFrom_append]
  exact List.getLast?_concat

namespace Policy

/-- The engine multiplies by the number of a code for each client of that country. There is such a
client just if the code has no white space at its ends, and what the check ensures is that the code
has more than white space. -/
theorem knows_entry_iff_trimmed (p : Policy) (accepted : p.violations = []) {code : String}
    {m : Float} (listed : p.entry? code = some m) :
    (∃ x ∈ code.toList, Text.isBlank x = false) ∧
    (ClientFile.Knows code ↔ Text.Trimmed Text.isBlank code.toList) ∧
    ∀ c : Client, c.country = code →
      (explain p.engine p.weightTable c).steps.getLast? =
        some ⟨.country code m, ownTotal p.engine p.weightTable c,
          ownTotal p.engine p.weightTable c * m⟩ := by
  refine ⟨?_, ClientFile.knows_iff, ?_⟩
  · obtain ⟨t, ht, entry⟩ := Option.bind_eq_some_iff.1 listed
    exact ((violations_eq_nil_iff.1 accepted).countries t ht code m entry).1
  · rintro c rfl
    have multiplier : p.engine.multiplier? c.country = some m := by
      rw [multiplier?_engine, listed, Option.some_or]
    exact steps_of_multiplier multiplier p.weightTable

/-- The first of the two codes has a blank in front. -/
def paddedPolicy : Policy where
  weights := none
  countries := some (.ofList [(" PL", 0.5), ("PT", 0.5)])

def paddedFile : String := "id\nC1,Ann,\" PL\",retail,45,100000,permanent,finance,2000\n"

def paddedClient : Client :=
  ⟨"C1", "Ann", "PL", "retail", 45, 100000.0, "permanent", "finance", 2000.0, 0.0⟩

/-- No client has the code with the blank, not even one that is written so. -/
theorem knows_entry_iff_trimmed_paddedPolicy :
    paddedPolicy.violations = [] ∧ paddedPolicy.entry? " PL" = some 0.5 ∧
    ¬ ClientFile.Knows " PL" ∧
    ClientFile.parse (Utf8.encode paddedFile.toList) = .ok [paddedClient] ∧
    paddedPolicy.engine.multiplier? paddedClient.country = none ∧
    paddedPolicy.entry? "PT" = some 0.5 ∧ ClientFile.Knows "PT" := by
  have accepted : paddedPolicy.violations = [] := List.isEmpty_iff.1 (by decide)
  have padded : paddedPolicy.entry? " PL" = some 0.5 := by decide
  have plain : paddedPolicy.entry? "PT" = some 0.5 := by decide
  obtain ⟨-, unknown, -⟩ := knows_entry_iff_trimmed paddedPolicy accepted padded
  obtain ⟨-, known, -⟩ := knows_entry_iff_trimmed paddedPolicy accepted plain
  refine ⟨accepted, padded, mt unknown.1 (by decide), by decide +kernel, by decide, plain,
    known.2 (by decide)⟩

end Policy
end CreditRating

import CreditRating.Proofs.Score.Accuracy
import CreditRating.Proofs.Score.Clamp
import CreditRating.Proofs.Screening

/-!
The standard rating against the exact one. An exact total that is no floor is so
far from all floors that rounding cannot matter. The few profiles on a floor are
computed.
-/

namespace CreditRating

open Binary

theorem floors_mem :
    ∀ f ∈ Rating.floors, f.1.isNaN = false ∧ 0 < quantity f.1 ∧ quantity f.1 ≤ 1 := by
  decide +kernel

/-- The clamp takes no score over a floor. -/
theorem ofScore_clampUnit {x : Float} (h : x.isNaN = false) :
    Rating.ofScore (clampUnit x) = Rating.ofScore x := by
  have same : List.Forall₂
      (fun f g => f.2 = g.2 ∧ decide (f.1 ≤ clampUnit x) = decide (g.1 ≤ x))
      Rating.floors Rating.floors := by
    refine List.forall₂_same.2 fun f hf => ⟨rfl, ?_⟩
    obtain ⟨hn, low, high⟩ := floors_mem f hf
    rw [decide_eq_decide, le_iff hn ((isNaN_clampUnit x).trans h), le_iff hn h,
      quantity_clampUnit h]
    exact Exact.le_clamp_iff low high
  rw [Rating.ofScore, Exact.find?_floors (p := fun f => f ≤ clampUnit x) (q := fun f => f ≤ x)
    same, Rating.ofScore]

namespace Profile

/-- The floors in parts of 360000. -/
def floorUnits : List ℤ := [306000, 252000, 216000, 180000, 144000, 108000]

theorem floors_near :
    List.Forall₂ (fun f g => f.2 = g.2 ∧ Near f.1 g.1 1 ∧ ∃ u ∈ floorUnits, g.1 = (u : ℚ) / 360000)
      Rating.floors Exact.floors := by
  refine .cons ?_ (.cons ?_ (.cons ?_ (.cons ?_ (.cons ?_ (.cons ?_ .nil))))) <;>
    refine ⟨rfl, near_literal ?_ ?_ ?_ ?_, ?_⟩ <;> norm_num [floorUnits, abs_lt]

/-- Different parts are further away from each other than rounding can move a total. -/
theorem lt_abs_sub {u v : ℤ} (h : u ≠ v) :
    ((1 + 42 : ℕ) : ℚ) * slip < |(u : ℚ) / 360000 - v / 360000| := by
  have hone : (1 : ℚ) ≤ |(u : ℚ) - v| := by
    exact_mod_cast Int.one_le_abs (sub_ne_zero.2 h)
  rw [← sub_div, abs_div, abs_of_pos (by norm_num : (0 : ℚ) < 360000), slip]
  linarith

/-- Away from the floors the rounded total has the band of the exact one. -/
theorem ofScore_total_of_not_mem {p : Profile} (h : p.units ∉ floorUnits) :
    Rating.ofScore p.total = Exact.rating p.exact := by
  have same : List.Forall₂
      (fun f g => f.2 = g.2 ∧ decide (f.1 ≤ p.total) = decide (g.1 ≤ p.exact))
      Rating.floors Exact.floors := by
    refine floors_near.imp fun f g hfg => ⟨hfg.1, ?_⟩
    obtain ⟨-, near, u, hu, hg⟩ := hfg
    refine decide_eq_decide.2 (near.le_iff p.near_total ?_)
    rw [hg, exact]
    exact lt_abs_sub fun heq => h (heq ▸ hu)
  rw [Rating.ofScore, Exact.find?_floors (p := fun f => f ≤ p.total) (q := fun g => g ≤ p.exact)
    same, Exact.rating]

def FallsShort (p : Profile) : Prop :=
  p.age = none ∧ p.units = 306000 ∨
    (p.age.map (·.1) = some 30 ∨ p.age.map (·.1) = some 60) ∧ p.income ∧ p.units = 144000

instance (p : Profile) : Decidable p.FallsShort :=
  inferInstanceAs (Decidable (_ ∨ _))

/-- The ages that an exact total on a floor can have. -/
def floorAges : List (Option CountedAge) :=
  [none, some ⟨30, by decide⟩, some ⟨45, by decide⟩, some ⟨60, by decide⟩, some ⟨75, by decide⟩]

/-- An exact total on a floor leaves few ages, by what divides its parts. -/
theorem age_mem_floorAges {p : Profile} (h : p.units ∈ floorUnits) : p.age ∈ floorAges := by
  have own : ∃ k : ℤ, p.ownUnits =
      p.age.elim 0 (fun n => 40 * (45 - ((45 - n.1).natAbs : ℤ))) + 900 * k := by
    refine ⟨6 * indicator p.income + 4 * indicator p.employment + 4 * indicator p.industry +
      2 * p.tier.halves - 2 * indicator p.highDebt - indicator p.isDeducted, ?_⟩
    rw [ownUnits]
    ring
  obtain ⟨k, hk⟩ := own
  rw [units, hk] at h
  cases hage : p.age with
  | none => exact .head _
  | some n =>
      obtain ⟨n, low, high⟩ := n
      rw [hage] at h
      have hn : n = 30 ∨ n = 45 ∨ n = 60 ∨ n = 75 := by
        simp only [floorUnits, List.mem_cons, List.not_mem_nil, or_false, Option.elim] at h
        cases hr : p.region <;> rw [hr] at h <;> simp only [Region.twentieths] at h <;> omega
      obtain rfl | rfl | rfl | rfl := hn <;> simp [floorAges]

/-- What holds of every profile on a floor. -/
def Settled (p : Profile) : Prop :=
  p.units ∈ floorUnits →
    (Rating.ofScore p.total).rank + (if p.FallsShort then 1 else 0) = (Exact.rating p.exact).rank

instance (p : Profile) : Decidable p.Settled := inferInstanceAs (Decidable (_ → _))

/-- These few profiles are settled one by one. -/
theorem settled_of_floorAges : ∀ age ∈ floorAges, ∀ income employment industry highDebt : Bool,
    ∀ tier ∈ [Factor.DebtTier.low, .moderate, .high],
    ∀ region ∈ [Region.unlisted, .full, .de, .gr, .br],
      Settled ⟨age, income, employment, industry, tier, highDebt, region⟩ := by
  decide +kernel

/-- The band of the rounded total is that of the exact total, or the next one below it for
a profile that falls short. -/
theorem rank_ofScore_total (p : Profile) :
    (Rating.ofScore p.total).rank + (if p.FallsShort then 1 else 0) =
      (Exact.rating p.exact).rank := by
  by_cases h : p.units ∈ floorUnits
  · obtain ⟨age, income, employment, industry, tier, highDebt, region⟩ := p
    exact settled_of_floorAges age (age_mem_floorAges h) income employment industry highDebt tier
      (by cases tier <;> decide) region (by cases region <;> decide) h
  · have short : ¬ p.FallsShort := by
      rintro (⟨-, hu⟩ | ⟨-, -, hu⟩) <;> exact h (hu ▸ by decide)
    rw [if_neg short, add_zero, ofScore_total_of_not_mem h]

theorem exact_eq_iff (p : Profile) (u : ℤ) : p.exact = u / 360000 ↔ p.units = u := by
  rw [exact, div_left_inj' (by norm_num), Int.cast_inj]

theorem score_eq_iff {c : Client} (income : c.income.isNaN = false) (debt : c.debt.isNaN = false)
    {f : ℚ} (low : 0 < f) (high : f < 1) {u : ℤ} (units : f = u / 360000) :
    Exact.score c = f ↔ (ofClient c).units = u := by
  rw [Exact.score, Exact.clamp_eq_iff low high, exact_ofClient income debt, units, exact_eq_iff]

/-- A client falls short just if its profile does. -/
theorem fallsShort_ofClient {c : Client} (income : c.income.isNaN = false)
    (debt : c.debt.isNaN = false) : (ofClient c).FallsShort ↔ Exact.FallsShort c := by
  have most : Exact.score c = 17 / 20 ↔ (ofClient c).units = 306000 :=
    score_eq_iff income debt (by norm_num) (by norm_num) (by norm_num)
  have middle : Exact.score c = 2 / 5 ↔ (ofClient c).units = 144000 :=
    score_eq_iff income debt (by norm_num) (by norm_num) (by norm_num)
  have counted : (ofClient c).income ↔ 30000 ≤ quantity c.income := by
    rw [ofClient, meetsIncome_eq income, decide_eq_true_iff]
  rw [FallsShort, Exact.FallsShort, most, middle, counted]
  by_cases h : 18 ≤ c.age.toInt ∧ c.age.toInt ≤ 75
  · simp [ofClient, h]
  · have : c.age.toInt ≠ 30 ∧ c.age.toInt ≠ 60 := by omega
    simp [ofClient, h, this]

end Profile

theorem Rating.rank_injective {r s : Rating} (h : r.rank = s.rank) : r = s := by
  cases r <;> cases s <;> first | rfl | exact absurd h (by decide)

/-- The standard band of a valid client. -/
theorem ofScore_standard {c : Client} (h : c.isValid) :
    (Exact.FallsShort c →
      (Rating.ofScore (score Engine.standard Weights.standard c)).rank + 1 =
        (Exact.rating (Exact.score c)).rank) ∧
    (¬ Exact.FallsShort c →
      Rating.ofScore (score Engine.standard Weights.standard c) =
        Exact.rating (Exact.score c)) := by
  obtain ⟨income, debt⟩ := c.isNaN_of_isValid h
  have band : Rating.ofScore (score Engine.standard Weights.standard c) =
      Rating.ofScore (Profile.ofClient c).total := by
    rw [score, Breakdown.score, unclamped_standard,
      ofScore_clampUnit (Profile.ofClient c).near_total.isNaN]
  have exact : Exact.rating (Exact.score c) = Exact.rating (Profile.ofClient c).exact := by
    rw [Exact.score, Exact.rating_clamp, Profile.exact_ofClient income debt]
  have ranks := (Profile.ofClient c).rank_ofScore_total
  rw [← Profile.fallsShort_ofClient income debt, band, exact]
  constructor
  · intro short
    rwa [if_pos short] at ranks
  · intro short
    rw [if_neg short, add_zero] at ranks
    exact Rating.rank_injective ranks

/-- The standard pipeline rates a valid client by the band of its exact score, but for the
clients that fall short. Those are rated one band lower. -/
theorem process_rating_iff (c : Client) (row : ℕ) (h : c.isValid) :
    ∃ s, Pipeline.process ⟨Weights.standard, Engine.standard⟩ row c = .ok s ∧
      (s.rating = Exact.rating (Exact.score c) ↔ ¬ Exact.FallsShort c) ∧
      (Exact.FallsShort c → s.rating.rank + 1 = (Exact.rating (Exact.score c)).rank) := by
  obtain ⟨below, same⟩ := ofScore_standard h
  refine ⟨_, if_pos h, ⟨fun eq short => ?_, same⟩, below⟩
  have := below short
  rw [show Rating.ofScore _ = _ from eq] at this
  omega

def youngClient : Client where
  id := "C001"
  name := "Test Client"
  country := "AT"
  clientType := "retail"
  age := 17
  income := 100000.0
  employment := "permanent"
  industry := "finance"
  debt := 2000.0
  score := 0.0

theorem process_rating_youngClient :
    youngClient.isValid ∧ Exact.score youngClient = 17 / 20 ∧
      ∃ s, Pipeline.process ⟨Weights.standard, Engine.standard⟩ 1 youngClient = .ok s ∧
        s.rating ≠ Exact.rating (Exact.score youngClient) := by
  have valid : youngClient.isValid := by decide
  have floor : Exact.score youngClient = 17 / 20 := by decide +kernel
  obtain ⟨s, hs, rating, -⟩ := process_rating_iff youngClient 1 valid
  refine ⟨valid, floor, s, hs, fun same => rating.1 same (.inl ⟨by decide, floor⟩)⟩

end CreditRating

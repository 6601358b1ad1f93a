import CreditRating.Proofs.Terminal.Colors
import CreditRating.Proofs.Terminal.Lines
import CreditRating.Proofs.Text.Pieces
import Mathlib.Data.List.Count

/-!
The summary of a batch. The bands are gone through one by one, and each result counts in the one
that it has. So the counts of a batch are those of its parts taken together, and they tell the
ratings of the batch up to their order. What the terminal shows of them can be read back, and the
bars are as long as the counts up to the longest.
-/

namespace CreditRating

namespace Rating

theorem pairwise_all : all.Pairwise (· > ·) := by decide

theorem count_all (r : Rating) : all.count r = 1 := by
  cases r <;> rfl

theorem mem_all (r : Rating) : r ∈ all :=
  List.count_pos_iff.1 (Nat.lt_of_lt_of_eq Nat.one_pos (count_all r).symm)

end Rating

namespace Terminal

open Text (alignLeft alignRight words)

/-- The counts of two batches, band by band. -/
def addBands (ds ds' : List (Rating × Nat)) : List (Rating × Nat) :=
  List.zipWith (fun d d' => (d.1, d.2 + d'.2)) ds ds'

section

variable {rs rs' : List Scored}

/-- Only the ratings count. -/
theorem distribution_eq (rs : List Scored) :
    distribution rs = Rating.all.map fun band => (band, (rs.map (·.rating)).count band) := by
  refine List.map_congr_left fun band _ => ?_
  rw [List.count_eq_countP, List.countP_map]
  rfl

theorem bands_distribution (rs : List Scored) : (distribution rs).map (·.1) = Rating.all := by
  rw [distribution, List.map_map]
  exact List.map_id Rating.all

/-- One rating more is one more in its own band and in no other. -/
theorem sum_count_cons (r : Rating) (l : List Rating) :
    (Rating.all.map (r :: l).count).sum = (Rating.all.map l.count).sum + 1 := by
  have own : (Rating.all.map fun band => if r == band then 1 else 0).sum = 1 := by
    cases r <;> rfl
  have split : Rating.all.map (r :: l).count =
      Rating.all.map fun band => l.count band + if r == band then 1 else 0 :=
    List.map_congr_left fun band _ => List.count_cons
  rw [split, List.sum_map_add, own]

theorem sum_distribution (rs : List Scored) : ((distribution rs).map (·.2)).sum = rs.length := by
  rw [distribution_eq, List.map_map]
  induction rs with
  | nil => rfl
  | cons r rs ih => exact (sum_count_cons r.rating _).trans (congrArg (· + 1) ih)

/-- The counts of two batches add up band by band. -/
theorem distribution_append (rs rs' : List Scored) :
    distribution (rs ++ rs') = addBands (distribution rs) (distribution rs') := by
  simp only [distribution, addBands, List.zipWith_map, List.zipWith_self, List.countP_append]

/-- The counts tell the bands of a batch up to their order. -/
theorem distribution_eq_iff :
    distribution rs = distribution rs' ↔ (rs.map (·.rating)).Perm (rs'.map (·.rating)) := by
  rw [distribution_eq, distribution_eq, List.map_inj_left, List.perm_iff_count]
  constructor
  · intro same band
    exact (Prod.mk.inj (same band (Rating.mem_all band))).2
  · intro same band _
    rw [same band]

end

def totalsLine (scored rejected : Nat) : String :=
  toString scored ++ " clients scored, " ++ toString rejected ++ " rejected"

def bandLine (d : Rating × Nat) : String :=
  "  " ++ ratingCell .off d.1 ++ "  " ++ alignRight 4 (toString d.2) ++ "  " ++
    String.ofList (List.replicate (min d.2 longestBar) '#')

theorem summary_off (o : Outcome) :
    summary .off o =
      String.join ((totalsLine o.results.length o.rejected.length ::
        (distribution o.results).map bandLine).map (· ++ "\n")) := by
  have told : " rejected\n" = " rejected" ++ "\n" := rfl
  have bands : (distribution o.results).map (distributionLine .off) =
      ((distribution o.results).map bandLine).map (· ++ "\n") := by
    rw [List.map_map]
    rfl
  rw [summary, bands, List.map_cons, String.join_cons, totalsLine, told]
  simp only [Colors.paint, ite_self, String.append_assoc]

/-- A band as it is shown: its label, its count and the marks of its bar. -/
structure ShownBand where
  label : String
  count : Nat
  marks : Nat
  deriving DecidableEq

structure ShownSummary where
  scored : Nat
  rejected : Nat
  bands : List ShownBand

def ShownBand.ofCount (d : Rating × Nat) : ShownBand := ⟨d.1.label, d.2, min d.2 longestBar⟩

def ShownSummary.ofOutcome (o : Outcome) : ShownSummary :=
  ⟨o.results.length, o.rejected.length, (distribution o.results).map .ofCount⟩

def readCount? (s : String) : Option Nat :=
  if s ≠ "" ∧ s.toList.all Char.isDigit then some (Decimal.digitValue s.toList) else none

/-- A bar has nothing but marks, and one without marks is no word. -/
def readBand? (line : String) : Option ShownBand := do
  match words line with
  | [label, count] => return ⟨label, ← readCount? count, 0⟩
  | [label, count, bar] =>
      if bar.toList.all (· = '#') then return ⟨label, ← readCount? count, bar.length⟩ else none
  | _ => none

def readTotals? (line : String) : Option (Nat × Nat) := do
  match words line with
  | [scored, "clients", "scored,", rejected, "rejected"] =>
      return (← readCount? scored, ← readCount? rejected)
  | _ => none

def readSummary? (text : String) : Option ShownSummary := do
  match lines text with
  | [] => none
  | totals :: bands =>
      let (scored, rejected) ← readTotals? totals
      return ⟨scored, rejected, ← bands.mapM readBand?⟩

theorem readCount?_toString (n : Nat) : readCount? (toString n) = some n := by
  have text : (toString n).toList = Nat.toDigits 10 n := Nat.toList_repr
  have ne : toString n ≠ "" := Nat.repr_ne_empty
  have all : (Nat.toDigits 10 n).all Char.isDigit :=
    List.all_eq_true.2 (Decimal.allDigits_toDigits n)
  rw [readCount?, text, if_pos ⟨ne, all⟩, Decimal.digitValue_toDigits]

theorem words_toString (n : Nat) : words (toString n) = [toString n] := by
  refine Text.words_of_notMem (fun blank => ?_) Nat.repr_ne_empty
  cases Decimal.numeral_toString n ' ' blank

theorem words_ratingCell (r : Rating) : words (ratingCell .off r) = [r.label] := by
  cases r <;> decide

theorem words_bar (n : Nat) :
    words (String.ofList (List.replicate n '#')) =
      if n = 0 then [] else [String.ofList (List.replicate n '#')] := by
  split
  · next none => rw [none]; rfl
  · next some =>
      refine Text.words_of_notMem ?_ ?_
      · simp [List.mem_replicate]
      · simpa using some

theorem words_totalsLine (scored rejected : Nat) :
    words (totalsLine scored rejected) =
      [toString scored, "clients", "scored,", toString rejected, "rejected"] := by
  have told : " clients scored, " = " " ++ "clients" ++ " " ++ "scored," ++ " " := rfl
  have closing : " rejected" = " " ++ "rejected" := rfl
  have clients : words "clients" = ["clients"] := rfl
  have scoredWord : words "scored," = ["scored,"] := rfl
  have rejectedWord : words "rejected" = ["rejected"] := rfl
  rw [totalsLine, told, closing]
  simp only [← String.append_assoc, Text.words_append, words_toString, clients, scoredWord,
    rejectedWord, List.cons_append, List.nil_append]

theorem words_bandLine (d : Rating × Nat) :
    words (bandLine d) =
      d.1.label :: toString d.2 ::
        words (String.ofList (List.replicate (min d.2 longestBar) '#')) := by
  have front : "  " ++ ratingCell .off d.1 = "" ++ "  " ++ ratingCell .off d.1 := by
    rw [String.empty_append]
  have none : words "" = [] := rfl
  rw [bandLine, front, Text.words_gap, Text.words_gap, Text.words_gap, words_ratingCell,
    Text.words_alignRight, words_toString, none]
  rfl

theorem readTotals?_totalsLine (scored rejected : Nat) :
    readTotals? (totalsLine scored rejected) = some (scored, rejected) := by
  rw [readTotals?, words_totalsLine]
  change (do return (← readCount? (toString scored), ← readCount? (toString rejected))) = _
  rw [readCount?_toString, readCount?_toString]
  rfl

/-- The line of a band tells its label, its count and the marks of its bar. -/
theorem readBand?_bandLine (d : Rating × Nat) : readBand? (bandLine d) = some (.ofCount d) := by
  rw [readBand?, words_bandLine, words_bar, ShownBand.ofCount]
  by_cases none : min d.2 longestBar = 0
  · rw [if_pos none, none]
    dsimp only
    rw [readCount?_toString]
    rfl
  · have marks : (List.replicate (min d.2 longestBar) '#').all (· = '#') := by simp
    rw [if_neg none]
    dsimp only
    rw [String.toList_ofList, if_pos marks, readCount?_toString, String.length_ofList,
      List.length_replicate]
    rfl

example : readBand? "  BB     41  #########" = some ⟨"BB", 41, 9⟩ := by decide

theorem feeds_bandLine (d : Rating × Nat) : feeds (bandLine d) = 0 := by
  have blanks : feeds "  " = 0 := by decide
  have bar (n : Nat) : feeds (String.ofList (List.replicate n '#')) = 0 := by
    simp [feeds, List.count_replicate]
  simp only [bandLine, feeds_append, feeds_alignRight, feeds_toString, feeds_ratingCell, blanks,
    bar]

theorem feeds_totalsLine (scored rejected : Nat) : feeds (totalsLine scored rejected) = 0 := by
  have told : feeds " clients scored, " = 0 := by decide
  have closing : feeds " rejected" = 0 := by decide
  simp only [totalsLine, feeds_append, feeds_toString, told, closing]

theorem lines_summary (o : Outcome) :
    lines (summary .off o) =
      totalsLine o.results.length o.rejected.length :: (distribution o.results).map bandLine := by
  have single : ∀ line ∈ totalsLine o.results.length o.rejected.length ::
      (distribution o.results).map bandLine, feeds line = 0 := by
    rw [List.forall_mem_cons, List.forall_mem_map]
    exact ⟨feeds_totalsLine _ _, fun d _ => feeds_bandLine d⟩
  have whole := lines_join single ""
  rwa [String.append_empty, ← summary_off, show lines "" = [] from rfl, List.append_nil] at whole

/-- The printed summary tells the totals and all counts. -/
theorem readSummary?_summary (o : Outcome) :
    readSummary? (summary .off o) = some (.ofOutcome o) := by
  have bands : ((distribution o.results).map bandLine).mapM readBand? =
      some ((distribution o.results).map .ofCount) := by
    have each : readBand? ∘ bandLine = fun d => some (.ofCount d) := funext readBand?_bandLine
    rw [List.mapM_map, each]
    exact List.mapM_pure
  rw [readSummary?, lines_summary]
  dsimp only
  rw [readTotals?_totalsLine, bands]
  rfl

/-- Each band is counted once, the best first, and the counts add up to the results. Batches taken
together have their counts taken together, and batches have the same counts just if they have the
same ratings in some order. The summary is read as the totals and the counts, which add up to the
clients that are scored, and each bar has a mark for each of the first 40 that it counts. In colours
it is the same text with sequences. -/
theorem distribution_of_results (rs rs' : List Scored) (o : Outcome) :
    (distribution rs).map (·.1) = Rating.all ∧ Rating.all.Pairwise (· > ·) ∧
    (∀ r, Rating.all.count r = 1) ∧
    ((distribution rs).map (·.2)).sum = rs.length ∧
    distribution (rs ++ rs') = addBands (distribution rs) (distribution rs') ∧
    (distribution rs = distribution rs' ↔ (rs.map (·.rating)).Perm (rs'.map (·.rating))) ∧
    (∃ s, readSummary? (summary .off o) = some s ∧
      s.scored = o.results.length ∧ s.rejected = o.rejected.length ∧
      s.bands.map (·.label) = Rating.all.map Rating.label ∧
      s.bands.map (·.count) = (distribution o.results).map (·.2) ∧
      (s.bands.map (·.count)).sum = s.scored ∧
      s.bands.map (·.marks) = s.bands.map fun b => min b.count 40) ∧
    unpainted (summary .on o).toList = (summary .off o).toList := by
  have counts : (ShownSummary.ofOutcome o).bands.map (·.count) =
      (distribution o.results).map (·.2) := by
    rw [ShownSummary.ofOutcome, List.map_map]
    rfl
  refine ⟨bands_distribution rs, Rating.pairwise_all, Rating.count_all, sum_distribution rs,
    distribution_append rs rs', distribution_eq_iff,
    ⟨.ofOutcome o, readSummary?_summary o, rfl, rfl, ?_, counts, ?_, ?_⟩,
    (shows_summary o).unpainted⟩
  · rw [← bands_distribution o.results, ShownSummary.ofOutcome, List.map_map, List.map_map]
    rfl
  · rw [counts, sum_distribution]
    rfl
  · rw [ShownSummary.ofOutcome, List.map_map, List.map_map]
    rfl

end Terminal
end CreditRating

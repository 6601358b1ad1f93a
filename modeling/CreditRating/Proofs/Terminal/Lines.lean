import CreditRating.Proofs.Batch.Partition
import CreditRating.Proofs.ClientFile.Unquoted
import CreditRating.Proofs.Decimal.Numerals
import CreditRating.Proofs.Screening
import CreditRating.Proofs.Text.Lines
import CreditRating.Terminal.Views

/-!
The lines that the terminal shows. The table has a line for each scored client and the rejections
one for each rule that a client breaks, and then one more for each line feed of a text that is
shown with them. Only a file with quotes has clients with such texts.
-/

namespace CreditRating
namespace Terminal

def lines (s : String) : List String := (Text.lines s.toList).map String.ofList

def feeds (s : String) : Nat := s.toList.count '\n'

section

variable {s t : String}

@[simp] theorem feeds_append (s t : String) : feeds (s ++ t) = feeds s + feeds t := by
  rw [feeds, String.toList_append, List.count_append]
  rfl

theorem feeds_eq_zero_iff : feeds s = 0 ↔ '\n' ∉ s.toList := List.count_eq_zero

theorem feeds_of_numeral (h : Decimal.Numeral s.toList) : feeds s = 0 := by
  refine feeds_eq_zero_iff.2 fun feed => ?_
  cases h '\n' feed

theorem feeds_of_inLine (h : ∀ c ∈ s.toList, Csv.isLineEndChar c = false) : feeds s = 0 := by
  refine feeds_eq_zero_iff.2 fun feed => ?_
  cases h '\n' feed

@[simp] theorem feeds_alignLeft (width : Nat) (s : String) :
    feeds (Text.alignLeft width s) = feeds s := by
  simp [feeds, Text.alignLeft, List.rightpad, List.count_replicate]

@[simp] theorem feeds_alignRight (width : Nat) (s : String) :
    feeds (Text.alignRight width s) = feeds s := by
  simp [feeds, Text.alignRight, List.leftpad, List.count_replicate]

theorem feeds_toString (n : Nat) : feeds (toString n) = 0 :=
  feeds_of_numeral (Decimal.numeral_toString n)

theorem feeds_fixed (places : Nat) (x : Float) : feeds (Decimal.fixed places x) = 0 :=
  feeds_of_numeral (Decimal.numeral_fixed places x)

theorem feeds_ratingCell (r : Rating) : feeds (ratingCell .off r) = 0 := by
  cases r <;> decide

/-- What is cut off from a name has line feeds at most. -/
theorem feeds_shortName (h : feeds s = 0) : feeds (shortName s) = 0 := by
  rw [shortName]
  split
  · exact h
  · have points : feeds "..." = 0 := by decide
    rw [feeds_append, points, Nat.add_zero, feeds_eq_zero_iff, String.toList_ofList]
    exact fun feed => feeds_eq_zero_iff.1 h (List.mem_of_mem_take feed)

theorem feeds_message (row : Nat) (v : Violation) : feeds (v.message row) = 0 := by
  have text : feeds v.text = 0 := by
    cases v with
    | age n =>
        have label : feeds "Invalid age: " = 0 := by decide
        rw [Violation.text, feeds_append, label,
          feeds_of_numeral (Decimal.numeral_toString n.toInt)]
    | _ => decide
  have before : feeds "Row " = 0 := by decide
  have after : feeds ": " = 0 := by decide
  simp only [Violation.message, feeds_append, feeds_toString, text, before, after]

end

section

variable {ls : List String}

theorem unended_closed (s : String) : Text.Unended (s ++ ")").toList := by
  rw [String.toList_append]
  exact Text.unended_concat s.toList (by decide)

/-- Each text has one line more than it has line feeds. -/
theorem length_lines_intercalate (h : ∀ s ∈ ls, Text.Unended s.toList) :
    (lines ("\n".intercalate ls)).length = (ls.map fun s => 1 + feeds s).sum := by
  have feed : "\n".toList = ['\n'] := rfl
  rw [lines, List.length_map, String.toList_intercalate, feed,
    Text.length_lines_intercalate (List.forall_mem_map.2 h), List.map_map]
  rfl

theorem lines_intercalate_eq_iff (h : ∀ s ∈ ls, Text.Unended s.toList) :
    lines ("\n".intercalate ls) = ls ↔ ∀ s ∈ ls, feeds s = 0 := by
  have feed : "\n".toList = ['\n'] := rfl
  have whole := Text.lines_intercalate_eq_iff (List.forall_mem_map.2 h)
  rw [List.forall_mem_map] at whole
  rw [lines, String.toList_intercalate, feed]
  refine Iff.trans ?_ whole
  constructor
  · intro same
    have chars := congrArg (List.map String.toList) same
    simpa using chars
  · intro same
    rw [same]
    simp

end

/-- Texts that are ended one by one are the lines of the whole, whatever follows. -/
theorem lines_join (h : ∀ s ∈ ls, feeds s = 0) (t : String) :
    lines (String.join (ls.map (· ++ "\n")) ++ t) = ls ++ lines t := by
  have feed : "\n".toList = ['\n'] := rfl
  induction ls with
  | nil => simp
  | cons s ls ih =>
      rw [List.forall_mem_cons] at h
      rw [lines] at ih ⊢
      rw [List.map_cons, String.join_cons, String.append_assoc, String.append_assoc,
        String.toList_append, String.toList_append, feed, List.singleton_append,
        Text.lines_append_feed (feeds_eq_zero_iff.1 h.1), List.map_cons, ih h.2,
        String.ofList_toList, List.cons_append]

/-- The line feeds that a scored client brings into its line. -/
def rowFeeds (r : Scored) : Nat :=
  feeds r.client.id + feeds (shortName r.client.name) + feeds r.client.country

theorem feeds_tableRow (width number : Nat) (r : Scored) :
    feeds (tableRow .off width number r) = rowFeeds r := by
  have point : feeds "." = 0 := by decide
  have blank : feeds " " = 0 := by decide
  have blanks : feeds "  " = 0 := by decide
  have opening : feeds " (" = 0 := by decide
  have closing : feeds ")" = 0 := by decide
  simp only [tableRow, Colors.paint, feeds_append, feeds_alignLeft, feeds_alignRight,
    feeds_toString, feeds_fixed, feeds_ratingCell, point, blank, blanks, opening, closing, rowFeeds,
    Nat.zero_add, Nat.add_zero]

theorem tableRows_eq_mapIdx (colors : Colors) (width number : Nat) (rs : List Scored) :
    tableRows colors width number rs =
      rs.mapIdx fun k r => tableRow colors width (number + k) r := by
  induction rs generalizing number with
  | nil => rfl
  | cons r rs ih =>
      rw [tableRows, ih, List.mapIdx_cons]
      simp only [Nat.add_zero, Nat.add_assoc, Nat.add_comm 1]

/-- What is the same for every number of a line. -/
theorem map_tableRows {α : Type} {f : String → α} {g : Scored → α} {colors : Colors} {width : Nat}
    (h : ∀ number r, f (tableRow colors width number r) = g r) (number : Nat) (rs : List Scored) :
    (tableRows colors width number rs).map f = rs.map g := by
  induction rs generalizing number with
  | nil => rfl
  | cons r rs ih => rw [tableRows, List.map_cons, h, ih, List.map_cons]

theorem unended_tableRows (width number : Nat) (rs : List Scored) :
    ∀ s ∈ tableRows .off width number rs, Text.Unended s.toList := by
  rw [tableRows_eq_mapIdx]
  intro s hs
  obtain ⟨k, r, rfl⟩ := List.mem_mapIdx.1 hs
  exact unended_closed _

section

variable {rs : List Scored} (ne : rs ≠ [])
include ne

/-- The table has a line for each scored client and one more for each line feed in what it shows. -/
theorem length_lines_scoreTable :
    (lines (scoreTable .off rs)).length = (rs.map fun r => 1 + rowFeeds r).sum := by
  have each (number : Nat) (r : Scored) :
      1 + feeds (tableRow .off (idWidth rs) number r) = 1 + rowFeeds r :=
    congrArg (1 + ·) (feeds_tableRow (idWidth rs) number r)
  have rows := map_tableRows (f := fun s => 1 + feeds s) (g := fun r => 1 + rowFeeds r) each 1 rs
  rw [scoreTable, if_neg ne, length_lines_intercalate (unended_tableRows _ 1 rs), rows]

theorem lines_scoreTable_eq_iff :
    lines (scoreTable .off rs) =
        rs.mapIdx (fun k r => tableRow .off (idWidth rs) (k + 1) r) ↔
      ∀ r ∈ rs, rowFeeds r = 0 := by
  have rows : tableRows .off (idWidth rs) 1 rs =
      rs.mapIdx fun k r => tableRow .off (idWidth rs) (k + 1) r := by
    rw [tableRows_eq_mapIdx]
    simp only [Nat.add_comm 1]
  have same : (tableRows .off (idWidth rs) 1 rs).map feeds = rs.map rowFeeds :=
    map_tableRows (feeds_tableRow (idWidth rs)) 1 rs
  have whole : lines (scoreTable .off rs) = tableRows .off (idWidth rs) 1 rs ↔
      ∀ s ∈ tableRows .off (idWidth rs) 1 rs, feeds s = 0 := by
    rw [scoreTable, if_neg ne]
    exact lines_intercalate_eq_iff (unended_tableRows _ 1 rs)
  rw [← rows, whole]
  calc (∀ s ∈ tableRows .off (idWidth rs) 1 rs, feeds s = 0)
    _ ↔ ∀ n ∈ (tableRows .off (idWidth rs) 1 rs).map feeds, n = 0 :=
        (List.forall_mem_map (P := (· = 0))).symm
    _ ↔ ∀ r ∈ rs, rowFeeds r = 0 := by rw [same, List.forall_mem_map]

end

section

variable {rs : List Rejection} (told : ∀ r ∈ rs, ∀ reason ∈ r.reasons, feeds reason = 0)

theorem unended_rejectionLines (rs : List Rejection) :
    ∀ s ∈ rejectionLines rs, Text.Unended s.toList := by
  intro s hs
  obtain ⟨r, -, hs⟩ := List.mem_flatMap.1 hs
  obtain ⟨reason, -, rfl⟩ := List.mem_map.1 hs
  exact unended_closed _

include told

theorem feeds_rejectionLine {r : Rejection} (hr : r ∈ rs) {reason : String}
    (h : reason ∈ r.reasons) : feeds (reason ++ " (" ++ r.id ++ ")") = feeds r.id := by
  have opening : feeds " (" = 0 := by decide
  have closing : feeds ")" = 0 := by decide
  simp [told r hr reason h, opening, closing]

/-- The list of rejections has a line for each reason, and more where an id has line feeds. -/
theorem length_lines_rejections :
    (lines (rejections rs)).length =
      (rs.map fun r => r.reasons.length * (1 + feeds r.id)).sum := by
  rw [rejections, length_lines_intercalate (unended_rejectionLines rs), rejectionLines,
    List.map_flatMap, List.flatMap_def, List.sum_flatten, List.map_map]
  refine congrArg List.sum (List.map_congr_left fun r hr => ?_)
  have each : ∀ reason ∈ r.reasons, 1 + feeds (reason ++ " (" ++ r.id ++ ")") = 1 + feeds r.id :=
    fun reason h => congrArg (1 + ·) (feeds_rejectionLine told hr h)
  rw [Function.comp_apply, List.map_map]
  change (r.reasons.map fun reason => 1 + feeds (reason ++ " (" ++ r.id ++ ")")).sum = _
  rw [List.map_congr_left each, List.map_const', List.sum_replicate_nat]

theorem lines_rejections_eq_iff (some : ∀ r ∈ rs, r.reasons ≠ []) :
    lines (rejections rs) = rejectionLines rs ↔ ∀ r ∈ rs, feeds r.id = 0 := by
  rw [rejections, lines_intercalate_eq_iff (unended_rejectionLines rs)]
  constructor
  · intro h r hr
    -- Without a reason the id would be on no line.
    obtain ⟨reason, mem⟩ := List.exists_mem_of_ne_nil _ (some r hr)
    rw [← feeds_rejectionLine told hr mem]
    exact h _ (List.mem_flatMap.2 ⟨r, hr, List.mem_map_of_mem mem⟩)
  · intro h s hs
    obtain ⟨r, hr, hs⟩ := List.mem_flatMap.1 hs
    obtain ⟨reason, mem, rfl⟩ := List.mem_map.1 hs
    rw [feeds_rejectionLine told hr mem]
    exact h r hr

end

section

variable {bs : List UInt8} {cs : List Client} {p : Pipeline} {o : Outcome}

/-- Rejections come from clients of the batch and have reasons, without line feeds. -/
theorem of_mem_rejected (ran : p.run cs = .ok o) {r : Rejection} (hr : r ∈ o.rejected) :
    (∃ c ∈ cs, r.id = c.id) ∧ r.reasons ≠ [] ∧ ∀ reason ∈ r.reasons, feeds reason = 0 := by
  obtain ⟨-, -, rejected⟩ := p.of_run_eq_ok ran
  rw [rejected] at hr
  obtain ⟨⟨c, row⟩, he, rfl⟩ := List.mem_map.1 hr
  obtain ⟨hc, invalid⟩ := mem_of_mem_invalidFrom he
  refine ⟨⟨c, hc, rfl⟩, ?_, ?_⟩
  · intro none
    rw [Client.reasons_eq_nil_iff.1 none] at invalid
    cases invalid
  · intro reason mem
    obtain ⟨v, -, rfl⟩ := List.mem_map.1 mem
    exact feeds_message row v

/-- The rules that a client breaks, as often as its id has lines. -/
theorem sum_rejected (ran : p.run cs = .ok o) :
    (o.rejected.map fun r => r.reasons.length * (1 + feeds r.id)).sum =
      (cs.map fun c => (Client.Rule.all.countP fun r => ¬ c.Keeps r) * (1 + feeds c.id)).sum := by
  have broken (c : Client) (row : Nat) :
      (c.reasons row).length = Client.Rule.all.countP fun r => ¬ c.Keeps r := by
    rw [Client.reasons, List.length_map, ← List.length_map (f := Violation.rule),
      c.map_rule_violations, List.countP_eq_length_filter]
  have valid (c : Client) (hc : c.isValid) :
      (Client.Rule.all.countP fun r => ¬ c.Keeps r) * (1 + feeds c.id) = 0 := by
    rw [← broken c 1, Client.reasons_eq_nil_iff.2 hc, List.length_nil, Nat.zero_mul]
  obtain ⟨-, -, rejected⟩ := p.of_run_eq_ok ran
  -- The clients that are scored break no rule, so the sum may run over all.
  rw [rejected, List.map_map, ← sum_invalidFrom valid 1 cs]
  refine congrArg List.sum (List.map_congr_left fun e _ => ?_)
  exact congrArg (· * (1 + feeds e.1.id)) (broken e.1 e.2)

/-- No line feed is in what a file without quotes makes the terminal show. -/
theorem feeds_of_unquoted (plain : Csv.quote ∉ bs) (loaded : ClientFile.parse bs = .ok cs)
    (ran : p.run cs = .ok o) :
    (∀ r ∈ o.results, rowFeeds r = 0) ∧ ∀ r ∈ o.rejected, feeds r.id = 0 := by
  have texts (c : Client) (hc : c ∈ cs) :
      feeds c.id = 0 ∧ feeds c.name = 0 ∧ feeds c.country = 0 := by
    have inLine := ClientFile.inLine_of_parse plain loaded c hc
    simp only [List.forall_mem_cons] at inLine
    obtain ⟨id, name, country, -⟩ := inLine
    exact ⟨feeds_of_inLine id, feeds_of_inLine name, feeds_of_inLine country⟩
  obtain ⟨-, results, -⟩ := p.of_run_eq_ok ran
  constructor
  · rw [results]
    intro r hr
    obtain ⟨c, hc, rfl⟩ := List.mem_map.1 hr
    obtain ⟨id, name, country⟩ := texts c (List.mem_of_mem_filter hc)
    have short := feeds_shortName name
    simp only [rowFeeds, Pipeline.scored, id, short, country]
  · intro r hr
    obtain ⟨⟨c, hc, id⟩, -, -⟩ := of_mem_rejected ran hr
    rw [id]
    exact (texts c hc).1

/-- The table has a line for each result, and one more for each line feed of the id, the shortened
name or the country. The rejections have a line for each rule that a client breaks, and each time
one more for each line feed of the id. The lines are those of the clients, in order, just if there
are no such line feeds, and a file without quotes brings in none. -/
theorem lines_of_run (loaded : ClientFile.parse bs = .ok cs) (ran : p.run cs = .ok o) :
    (lines (scoreTable .off o.results)).length = (o.results.map fun r => 1 + rowFeeds r).sum ∧
    (lines (rejections o.rejected)).length =
      (cs.map fun c => (Client.Rule.all.countP fun r => ¬ c.Keeps r) * (1 + feeds c.id)).sum ∧
    (lines (scoreTable .off o.results) =
        o.results.mapIdx (fun k r => tableRow .off (idWidth o.results) (k + 1) r) ↔
      ∀ r ∈ o.results, rowFeeds r = 0) ∧
    (lines (rejections o.rejected) = rejectionLines o.rejected ↔
      ∀ r ∈ o.rejected, feeds r.id = 0) ∧
    (Csv.quote ∉ bs → (∀ r ∈ o.results, rowFeeds r = 0) ∧ ∀ r ∈ o.rejected, feeds r.id = 0) := by
  have some : o.results ≠ [] := by
    obtain ⟨⟨c, hc, valid⟩, results, -⟩ := p.of_run_eq_ok ran
    rw [results]
    exact List.ne_nil_of_mem (List.mem_map_of_mem (List.mem_filter.2 ⟨hc, valid⟩))
  have told : ∀ r ∈ o.rejected, ∀ reason ∈ r.reasons, feeds reason = 0 :=
    fun r hr => (of_mem_rejected ran hr).2.2
  refine ⟨length_lines_scoreTable some, ?_, lines_scoreTable_eq_iff some, ?_,
    fun plain => feeds_of_unquoted plain loaded ran⟩
  · rw [length_lines_rejections told, sum_rejected ran]
  · exact lines_rejections_eq_iff told fun r hr => (of_mem_rejected ran hr).2.1

end

def oneLineClient : Client :=
  ⟨"C1", "Ann", "AT", "retail", 45, 100000.0, "permanent", "finance", 2000.0, 0.0⟩

def twoLineClient : Client :=
  { oneLineClient with id := "C2)\nRow 3: Negative debt (C3", name := "Bob", age := 0 }

def quotedFile : String :=
  "id\nC1,Ann,AT,retail,45,100000,permanent,finance,2000\n" ++
    "\"C2)\nRow 3: Negative debt (C3\",Bob,AT,retail,0,100000,permanent,finance,2000\n"

def standardPipeline : Pipeline := ⟨Weights.standard, .standard⟩

/-- Only the client of row 2 breaks a rule, and only one. The second line is about row 3. -/
theorem lines_of_run_twoLineClient :
    let o : Outcome := ⟨[standardPipeline.scored oneLineClient], [twoLineClient.rejection 2]⟩
    ClientFile.parse (Utf8.encode quotedFile.toList) = .ok [oneLineClient, twoLineClient] ∧
    standardPipeline.run [oneLineClient, twoLineClient] = .ok o ∧
    lines (rejections o.rejected) = ["Row 2: Invalid age: 0 (C2)", "Row 3: Negative debt (C3)"] ∧
    (lines (rejections o.rejected)).length = 2 ∧
    lines (rejections o.rejected) ≠ rejectionLines o.rejected ∧
    lines (scoreTable .off o.results) =
      [tableRow .off 8 1 (standardPipeline.scored oneLineClient)] := by
  intro o
  have loaded : ClientFile.parse (Utf8.encode quotedFile.toList) =
      .ok [oneLineClient, twoLineClient] := by decide +kernel
  have ran : standardPipeline.run [oneLineClient, twoLineClient] = .ok o := by decide +kernel
  obtain ⟨-, count, table, rejected, -⟩ := lines_of_run loaded ran
  refine ⟨loaded, ran, by decide +kernel, ?_, ?_, ?_⟩
  · exact count.trans (by decide +kernel)
  · exact mt rejected.1 (by decide +kernel)
  · exact table.2 (by decide +kernel)

end Terminal
end CreditRating

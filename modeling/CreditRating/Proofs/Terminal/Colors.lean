import CreditRating.Proofs.Decimal.Numerals
import CreditRating.Terminal.Views
import Mathlib.Data.List.Forall2

/-!
Colours add sequences and nothing else. A text shows as another if that is what is left of it
without its sequences, whatever follows. Parts that show as others can be put together, and a part
shows as itself if it has no escape character. So each text of the terminal shows as the one without
colours, provided that no escape character comes from a client.
-/

namespace CreditRating

def Finding.texts : Finding → List String
  | employment s _ | industry s _ | country s _ => [s]
  | _ => []

namespace Terminal

open Text (alignLeft alignRight)

def isParameter (c : Char) : Bool := c.isDigit || c == ';'

/-- What is behind the sequence that a text begins with: an escape, a bracket, parameters and the
letter m. -/
def behindSequence? : List Char → Option (List Char)
  | '\x1b' :: '[' :: s =>
      match s.dropWhile isParameter with
      | 'm' :: t => some t
      | _ => none
  | _ => none

theorem length_behindSequence? {s t : List Char} (h : behindSequence? s = some t) :
    t.length < s.length := by
  unfold behindSequence? at h
  split at h
  · next s =>
      split at h
      · next rest found =>
          cases h
          have shorter := (List.dropWhile_suffix (l := s) isParameter).length_le
          rw [found, List.length_cons] at shorter
          simp only [List.length_cons]
          omega
      · cases h
  · cases h

/-- The text that is left when all sequences are deleted. -/
def unpainted : List Char → List Char
  | [] => []
  | c :: s =>
      match _found : behindSequence? (c :: s) with
      | some t => unpainted t
      | none => c :: unpainted s
termination_by s => s.length
decreasing_by
  · exact length_behindSequence? _found
  · exact Nat.lt_succ_self s.length

theorem unpainted_cons {c : Char} (h : c ≠ '\x1b') (s : List Char) :
    unpainted (c :: s) = c :: unpainted s := by
  have none : behindSequence? (c :: s) = none := by
    unfold behindSequence?
    split
    · next same => exact absurd (List.cons.inj same).1 h
    · rfl
  rw [unpainted]
  split
  · next found =>
      rw [none] at found
      cases found
  · rfl

/-- A sequence is deleted, whatever follows it. -/
theorem unpainted_escape (code : Nat) (s : List Char) :
    unpainted ((escape code).toList ++ s) = unpainted s := by
  have parameters : ∀ c ∈ Nat.toDigits 10 code, isParameter c := by
    intro c hc
    rw [isParameter, Decimal.allDigits_toDigits code c hc, Bool.true_or]
  have behind : behindSequence? ('\x1b' :: '[' :: (Nat.toDigits 10 code ++ 'm' :: s)) = some s := by
    rw [behindSequence?, List.dropWhile_append_of_pos parameters]
    rfl
  have text : (escape code).toList ++ s =
      '\x1b' :: '[' :: (Nat.toDigits 10 code ++ 'm' :: s) := by
    simp [escape]
  rw [text, unpainted]
  split
  · next found =>
      rw [behind] at found
      cases found
      rfl
  · next found =>
      rw [behind] at found
      cases found

def Unescaped (s : String) : Prop := '\x1b' ∉ s.toList

instance (s : String) : Decidable (Unescaped s) := inferInstanceAs (Decidable (_ ∉ _))

section

variable {s t : String}

@[simp] theorem unescaped_append : Unescaped (s ++ t) ↔ Unescaped s ∧ Unescaped t := by
  rw [Unescaped, String.toList_append, List.mem_append, not_or]
  rfl

@[simp] theorem unescaped_alignLeft {width : Nat} :
    Unescaped (alignLeft width s) ↔ Unescaped s := by
  simp [Unescaped, alignLeft, List.rightpad, List.mem_replicate]

@[simp] theorem unescaped_alignRight {width : Nat} :
    Unescaped (alignRight width s) ↔ Unescaped s := by
  simp [Unescaped, alignRight, List.leftpad, List.mem_replicate]

theorem unescaped_of_numeral (h : Decimal.Numeral s.toList) : Unescaped s := by
  intro found
  cases h '\x1b' found

@[simp] theorem unescaped_natRepr (n : Nat) : Unescaped n.repr :=
  unescaped_of_numeral (Decimal.numeral_toString n)

@[simp] theorem unescaped_intRepr (n : Int) : Unescaped n.repr := by
  rw [← Int.toString_eq_repr]
  exact unescaped_of_numeral (Decimal.numeral_toString n)

@[simp] theorem unescaped_fixed (places : Nat) (x : Float) : Unescaped (Decimal.fixed places x) :=
  unescaped_of_numeral (Decimal.numeral_fixed places x)

@[simp] theorem unescaped_fixedSigned (places : Nat) (x : Float) :
    Unescaped (Decimal.fixedSigned places x) :=
  unescaped_of_numeral (Decimal.numeral_fixedSigned places x)

@[simp] theorem unescaped_plainText (x : Float) : Unescaped (plainText x) :=
  unescaped_of_numeral (Decimal.numeral_plainText x)

theorem unescaped_shortName (h : Unescaped s) : Unescaped (shortName s) := by
  rw [shortName]
  split
  · exact h
  · have points : Unescaped "..." := by decide
    rw [unescaped_append]
    refine ⟨fun found => h ?_, points⟩
    rw [String.toList_ofList] at found
    exact List.mem_of_mem_take found

/-- Colours do add something. -/
theorem escaped_paint (style : Style) (s : String) : ¬ Unescaped (Colors.on.paint style s) := by
  simp [Colors.paint, Style.paint, Unescaped, escape]

theorem escaped_intercalate (h : ¬ Unescaped s) (separator : String) (ss : List String) :
    ¬ Unescaped (separator.intercalate (s :: ss)) := by
  cases ss with
  | nil => rwa [String.intercalate_singleton]
  | cons t ss =>
      rw [String.intercalate_cons_cons, unescaped_append, unescaped_append]
      exact fun whole => h whole.1.1

theorem unescaped_label (r : Rating) : Unescaped r.label := by
  cases r <;> decide

end

/-- The text is the other one with sequences in it, none of which goes on in what follows. -/
def Shows (s t : String) : Prop :=
  ∀ rest, unpainted (s.toList ++ rest) = t.toList ++ unpainted rest

section

variable {s s' t t' : String}

theorem Shows.unpainted (h : Shows s t) : unpainted s.toList = t.toList := by
  have whole := h []
  rwa [List.append_nil, Terminal.unpainted, List.append_nil] at whole

theorem shows_of_unescaped (h : Unescaped s) : Shows s s := by
  intro rest
  rw [Unescaped] at h
  generalize s.toList = chars at h
  induction chars with
  | nil => rfl
  | cons c cs ih =>
      rw [List.mem_cons, not_or] at h
      rw [List.cons_append, unpainted_cons (Ne.symm h.1), ih h.2, List.cons_append]

/-- Texts that show as others do so side by side. -/
theorem Shows.append (h : Shows s t) (h' : Shows s' t') : Shows (s ++ s') (t ++ t') := by
  intro rest
  rw [String.toList_append, List.append_assoc, h, h', String.toList_append, List.append_assoc]

theorem Shows.text (h : Shows s t) (unescaped : Unescaped s') : Shows (s ++ s') (t ++ s') :=
  h.append (shows_of_unescaped unescaped)

/-- A text in a style shows as the text. -/
theorem Shows.paint (h : Shows s t) (style : Style) : Shows (Colors.on.paint style s) t := by
  intro rest
  rw [Colors.paint, Style.paint, String.toList_append, String.toList_append, List.append_assoc,
    List.append_assoc, unpainted_escape, h, unpainted_escape]

theorem Shows.join {ss ts : List String} (h : List.Forall₂ Shows ss ts) :
    Shows (String.join ss) (String.join ts) := by
  induction h with
  | nil => exact shows_of_unescaped (by decide)
  | cons first _ ih =>
      rw [String.join_cons, String.join_cons]
      exact first.append ih

theorem Shows.intercalate {separator : String} (unescaped : Unescaped separator)
    {ss ts : List String} (h : List.Forall₂ Shows ss ts) :
    Shows (separator.intercalate ss) (separator.intercalate ts) := by
  induction h with
  | nil =>
      rw [String.intercalate_nil]
      exact shows_of_unescaped (by decide)
  | cons first rest ih =>
      cases rest with
      | nil =>
          rw [String.intercalate_singleton, String.intercalate_singleton]
          exact first
      | cons second rest =>
          rw [String.intercalate_cons_cons, String.intercalate_cons_cons]
          exact (first.append (shows_of_unescaped unescaped)).append ih

end

theorem shows_ratingCell (r : Rating) : Shows (ratingCell .on r) (ratingCell .off r) := by
  have cell : Shows (alignLeft ratingWidth r.label) (alignLeft ratingWidth r.label) :=
    shows_of_unescaped (unescaped_alignLeft.2 (unescaped_label r))
  rw [ratingCell, ratingCell]
  split
  · exact (cell.paint red).paint bold
  · split
    · exact cell.paint green
    · exact cell.paint yellow

def rowTexts (r : Scored) : List String := [r.client.id, r.client.name, r.client.country]

theorem shows_tableRow {r : Scored} (h : ∀ s ∈ rowTexts r, Unescaped s) (width number : Nat) :
    Shows (tableRow .on width number r) (tableRow .off width number r) := by
  simp only [rowTexts, List.forall_mem_cons] at h
  obtain ⟨id, name, country, -⟩ := h
  have number : Unescaped (alignRight 3 (toString number) ++ ".") := by simp +decide
  have id : Unescaped (alignLeft width r.client.id) := unescaped_alignLeft.2 id
  have score : Unescaped (alignRight 5 (Decimal.fixed 2 r.client.score)) := by simp
  exact (shows_of_unescaped number).paint dimmed
    |>.text (by decide) |>.append ((shows_of_unescaped id).paint bold)
    |>.text (by decide) |>.text score
    |>.text (by decide) |>.append (shows_ratingCell r.rating)
    |>.text (by decide) |>.text (unescaped_shortName name)
    |>.text (by decide) |>.append ((shows_of_unescaped country).paint cyan) |>.text (by decide)

theorem forall₂_tableRows {rs : List Scored} (h : ∀ r ∈ rs, ∀ s ∈ rowTexts r, Unescaped s)
    (width number : Nat) :
    List.Forall₂ Shows (tableRows .on width number rs) (tableRows .off width number rs) := by
  induction rs generalizing number with
  | nil => exact .nil
  | cons r rs ih =>
      rw [List.forall_mem_cons] at h
      exact .cons (shows_tableRow h.1 width number) (ih h.2 (number + 1))

theorem shows_scoreTable {rs : List Scored} (h : ∀ r ∈ rs, ∀ s ∈ rowTexts r, Unescaped s) :
    Shows (scoreTable .on rs) (scoreTable .off rs) := by
  rw [scoreTable, scoreTable]
  split
  · exact shows_of_unescaped (by decide)
  · exact Shows.intercalate (by decide) (forall₂_tableRows h (idWidth rs) 1)

theorem shows_distributionLine (entry : Rating × Nat) :
    Shows (distributionLine .on entry) (distributionLine .off entry) := by
  have blanks : Shows "  " "  " := shows_of_unescaped (by decide)
  have count : Unescaped (alignRight 4 (toString entry.2)) := by simp
  have bar (n : Nat) : Unescaped (String.ofList (List.replicate n '#')) := by
    simp [Unescaped, List.mem_replicate]
  exact blanks.append (shows_ratingCell entry.1)
    |>.text (by decide) |>.text count |>.text (by decide) |>.text (bar _) |>.text (by decide)

theorem shows_summary (o : Outcome) : Shows (summary .on o) (summary .off o) := by
  have number (n : Nat) : Shows (toString n) (toString n) :=
    shows_of_unescaped (unescaped_natRepr n)
  have rejected : Shows
      (if o.rejected = [] then toString o.rejected.length
        else Colors.on.paint red (toString o.rejected.length))
      (if o.rejected = [] then toString o.rejected.length
        else Colors.off.paint red (toString o.rejected.length)) := by
    split
    · exact number _
    · exact (number _).paint red
  have bands : List.Forall₂ Shows ((distribution o.results).map (distributionLine .on))
      ((distribution o.results).map (distributionLine .off)) := by
    rw [List.forall₂_map_left_iff, List.forall₂_map_right_iff, List.forall₂_same]
    exact fun entry _ => shows_distributionLine entry
  exact (number o.results.length).paint bold
    |>.text (by decide) |>.append rejected |>.text (by decide) |>.append (Shows.join bands)

theorem unescaped_line {s : ShownStep} (label : Unescaped s.label)
    (description : Unescaped s.description) : Unescaped s.line := by
  simp +decide [ShownStep.line, label, description]

theorem unescaped_lastLine (s : ShownScore) : Unescaped s.lastLine := by
  rw [ShownScore.lastLine]
  split <;> simp +decide

theorem shows_text {c : Client} {s : ShownScore} (id : Unescaped c.id) (name : Unescaped c.name)
    (steps : ∀ step ∈ s.steps, Unescaped step.label ∧ Unescaped step.description) :
    Shows (s.text .on c) (s.text .off c) := by
  have header : Shows (c.id ++ " " ++ c.name) (c.id ++ " " ++ c.name) :=
    shows_of_unescaped (by simp +decide [id, name])
  have rest : ∀ line ∈ s.steps.map ShownStep.line ++ [s.lastLine], Shows line line := by
    rw [List.forall_mem_append, List.forall_mem_map, List.forall_mem_singleton]
    exact ⟨fun step h => shows_of_unescaped (unescaped_line (steps step h).1 (steps step h).2),
      shows_of_unescaped (unescaped_lastLine s)⟩
  exact Shows.intercalate (by decide) (.cons (header.paint bold) (List.forall₂_same.2 rest))

theorem unescaped_findingLabel (f : Finding) : Unescaped f.label := by
  cases f <;> simp +decide only [Finding.label]

theorem unescaped_description {f : Finding} (h : ∀ s ∈ f.texts, Unescaped s) :
    Unescaped f.description := by
  cases f with
  | age n earned => cases earned <;> simp +decide [Finding.description]
  | income x earned => cases earned <;> simp +decide [Finding.description]
  | employment s earned | industry s earned =>
      have own : Unescaped s := h s (.head [])
      cases earned <;> simp +decide [Finding.description, Finding.quoted, own]
  | debt ratio tier weight => cases tier <;> simp +decide [Finding.description]
  | highDebt x amount => simp +decide [Finding.description]
  | deductedAge n amount => simp +decide [Finding.description]
  | country code m =>
      have own : Unescaped code := h code (.head [])
      simp +decide [Finding.description, own]

theorem escaped_scoreTable {rs : List Scored} (ne : rs ≠ []) : ¬ Unescaped (scoreTable .on rs) := by
  rw [scoreTable, if_neg ne]
  cases rs with
  | nil => exact absurd rfl ne
  | cons r rs =>
      refine escaped_intercalate ?_ "\n" _
      simp [tableRow, escaped_paint]

theorem escaped_summary (o : Outcome) : ¬ Unescaped (summary .on o) := by
  simp [summary, escaped_paint]

theorem escaped_text (c : Client) (s : ShownScore) : ¬ Unescaped (s.text .on c) :=
  escaped_intercalate (escaped_paint bold _) "\n" _

/-- Without its sequences each coloured text is the one without colours, where no text that it
shows of a client has an escape character. There are such sequences, unless there is nothing to
show. -/
theorem unpainted_colored :
    (∀ rs, (∀ r ∈ rs, ∀ s ∈ rowTexts r, Unescaped s) →
      unpainted (scoreTable .on rs).toList = (scoreTable .off rs).toList) ∧
    (∀ o, unpainted (summary .on o).toList = (summary .off o).toList) ∧
    (∀ c s, Unescaped c.id → Unescaped c.name →
      (∀ step ∈ s.steps, Unescaped step.label ∧ Unescaped step.description) →
      unpainted (ShownScore.text .on c s).toList = (ShownScore.text .off c s).toList) ∧
    (∀ c b, Unescaped c.id → Unescaped c.name →
      (∀ step ∈ b.steps, ∀ s ∈ step.finding.texts, Unescaped s) →
      unpainted (breakdown .on c b).toList = (breakdown .off c b).toList) ∧
    (∀ rs, rs ≠ [] → ¬ Unescaped (scoreTable .on rs)) ∧
    (∀ o, ¬ Unescaped (summary .on o)) ∧
    ∀ c s, ¬ Unescaped (ShownScore.text .on c s) := by
  refine ⟨fun rs texts => (shows_scoreTable texts).unpainted, fun o => (shows_summary o).unpainted,
    fun c s id name steps => (shows_text id name steps).unpainted, ?_,
    fun rs => escaped_scoreTable, escaped_summary, escaped_text⟩
  intro c b id name texts
  refine (shows_text id name ?_).unpainted
  rw [ShownScore.ofBreakdown, List.forall_mem_map]
  exact fun step h =>
    ⟨unescaped_findingLabel step.finding, unescaped_description (texts step h)⟩

/-- A result that is shown in all colours but one, with a name that lacks only escape characters. -/
def bracketedResult : Scored :=
  ⟨⟨"C1", "[31mAnn;m", "AT", "", 0, 0.0, "", "", 0.0, 0.0⟩, .d⟩

def halvingStep : Step := ⟨.country "AT" 0.5, 2.5, 1.25⟩

/-- The name stays, although it stands behind a sequence in the one text and within two in the
other. -/
theorem unpainted_colored_bracketedResult :
    unpainted (scoreTable .on [bracketedResult]).toList =
      "  1. C1         0.00  D    [31mAnn;m (AT)".toList ∧
    unpainted (breakdown .on bracketedResult.client ⟨[halvingStep], 1.25⟩).toList =
      (breakdown .off bracketedResult.client ⟨[halvingStep], 1.25⟩).toList ∧
    ¬ Unescaped (scoreTable .on [bracketedResult]) := by
  obtain ⟨table, -, -, steps, painted, -⟩ := unpainted_colored
  have texts : ∀ step ∈ [halvingStep], ∀ s ∈ step.finding.texts, Unescaped s := by decide
  exact ⟨(table [bracketedResult] (by decide)).trans (by decide +kernel),
    steps bracketedResult.client ⟨[halvingStep], 1.25⟩ (by decide) (by decide) texts,
    painted _ (List.cons_ne_nil _ _)⟩

end Terminal
end CreditRating

import WeeklyAgenda.Agenda.Import
import WeeklyAgenda.Proofs.Meanings
import WeeklyAgenda.Proofs.Readings

/-! Which lines of a text are shown at a moment, said of the text alone. A line
covers the moment if one of its segments has a word for the day and a word for
the time; the labels that an agenda shows are those of the lines that cover the
moment, in their order. -/

namespace WeeklyAgenda

open Line Pieces

/-! ### What covers a moment -/

/-- A day, or two days with the given one on the way from the first forward to
the second, into the next week if need be. -/
def Line.Word.CoversDay (word : Word) (d : Weekday) : Prop :=
  (∃ name, words (· == '-') (Lowercase.lower word) = [name] ∧ d.Named name) ∨
    ∃ first last a b, words (· == '-') (Lowercase.lower word) = [first, last] ∧
      Weekday.Named a first ∧ Weekday.Named b last ∧ a.stepsTo d ≤ a.stepsTo b

/-- Two times on both sides of a hyphen, the only one, with the given time not
before the first and not after the second. -/
def Line.Word.CoversTime (word : Word) (t : ClockTime) : Prop :=
  Numeral.startsWithDigit word ∧ ∃ first last s e, word = first ++ '-' :: last ∧
    '-' ∉ first ∧ '-' ∉ last ∧ ClockTime.ofText? first = some s ∧
    ClockTime.ofText? last = some e ∧ s.minutes ≤ t.minutes ∧ t.minutes ≤ e.minutes

/-- A part of the text behind the first semicolon between semicolons. -/
def Line.IsSegment (segment line : List Char) : Prop :=
  ∃ label rest, line = label ++ ';' :: rest ∧ ';' ∉ label ∧ IsPart isSemicolon segment rest

/-- A longest stretch without spaces and commas. -/
def Line.IsWord (word segment : List Char) : Prop := IsPart isSeparator word segment ∧ word ≠ []

/-- One segment has both a word for the day and a word for the time. -/
def Line.Covers (line : String) (m : Moment) : Prop :=
  ∃ segment, IsSegment segment line.toList ∧
    (∃ word : Word, IsWord word segment ∧ word.CoversDay m.day) ∧
    (∃ word : Word, IsWord word segment ∧ word.CoversTime m.time)

/-- The text before the first semicolon without the blanks around it. -/
def Line.labelOf (line : String) : String :=
  String.ofList (Blank.trim (line.toList.takeWhile fun c => c ≠ ';'))

/-! ### Rules -/

theorem Weekday.index_lt (d : Weekday) : d.index < 7 := by
  cases d <;> decide

/-- A span holds on the days from its first forward to its last. -/
theorem DayRule.holds_span (a b d : Weekday) :
    (DayRule.span a b).holds d = true ↔ a.stepsTo d ≤ a.stepsTo b := by
  have ha := a.index_lt
  have hb := b.index_lt
  have hd := d.index_lt
  have hsat : Weekday.sat.index = 6 := rfl
  have hsun : Weekday.sun.index = 0 := rfl
  -- a span that wraps has two stretches, and the steps to a day before its first go round
  by_cases h : b.index < a.index
  · simp only [holds, stretches, wraps, h, decide_true, if_true, List.any_cons, List.any_nil,
      Bool.or_false, Bool.or_eq_true, Bool.and_eq_true, decide_eq_true_iff, hsat, hsun,
      Weekday.stepsTo]
    omega
  · simp only [holds, stretches, wraps, h, decide_false, Bool.false_eq_true, if_false,
      List.any_cons, List.any_nil, Bool.or_false, Bool.and_eq_true, decide_eq_true_iff,
      Weekday.stepsTo]
    omega

theorem DayRule.holds_on (a d : Weekday) : (DayRule.on a).holds d = true ↔ a = d := by
  cases a <;> cases d <;> decide

theorem TimeRange.holds_iff (r : TimeRange) (t : ClockTime) :
    r.holds t = true ↔ r.first.minutes ≤ t.minutes ∧ t.minutes ≤ r.last.minutes := by
  simp [TimeRange.holds]

/-! ### Words -/

theorem Line.Word.coversDay_iff {word : Word} {d : Weekday} :
    word.CoversDay d ↔ ∃ r, (Meaning.ofWord word).day? = some r ∧ r.holds d = true := by
  rw [Meaning.day?_ofWord]
  simp only [DayRule.ofWord?_eq_some_iff]
  constructor
  · rintro (⟨name, hw, hd⟩ | ⟨first, last, a, b, hw, ha, hb, hd⟩)
    · exact ⟨.on d, .inl ⟨name, d, hw, hd, rfl⟩, (DayRule.holds_on d d).mpr rfl⟩
    · exact ⟨.span a b, .inr ⟨first, last, a, b, hw, ha, hb, rfl⟩,
        (DayRule.holds_span a b d).mpr hd⟩
  · rintro ⟨_, ⟨name, a, hw, ha, rfl⟩ | ⟨first, last, a, b, hw, ha, hb, rfl⟩, hr⟩
    · obtain rfl := (DayRule.holds_on a d).mp hr
      exact .inl ⟨name, hw, ha⟩
    · exact .inr ⟨first, last, a, b, hw, ha, hb, (DayRule.holds_span a b d).mp hr⟩

theorem Line.Word.coversTime_iff {word : Word} {t : ClockTime} :
    word.CoversTime t ↔ ∃ r, (Meaning.ofWord word).time? = some r ∧ r.holds t = true := by
  rw [Meaning.time?_ofWord]
  simp only [Option.ite_none_right_eq_some, TimeRange.ofWord?_eq_some_iff, TimeRange.holds_iff]
  constructor
  · rintro ⟨hd, first, last, s, e, hw, hf, hl, hs, he, ht⟩
    exact ⟨⟨s, e⟩, ⟨hd, first, last, hw, hf, hl, hs, he⟩, ht⟩
  · rintro ⟨⟨s, e⟩, ⟨hd, first, last, hw, hf, hl, hs, he⟩, ht⟩
    exact ⟨hd, first, last, s, e, hw, hf, hl, hs, he, ht⟩

/-! ### Segments -/

theorem Line.Meaning.any_filterMap_ofWord {α : Type} (f : Meaning → Option α) (p : α → Bool)
    (ws : List Word) :
    ((ws.map ofWord).filterMap f).any p = true ↔
      ∃ word ∈ ws, ∃ a, f (ofWord word) = some a ∧ p a = true := by
  simp only [List.any_eq_true, List.mem_filterMap, List.mem_map]
  constructor
  · rintro ⟨a, ⟨_, ⟨word, hw, rfl⟩, ha⟩, hp⟩
    exact ⟨word, hw, a, ha, hp⟩
  · rintro ⟨word, hw, a, ha, hp⟩
    exact ⟨a, ⟨_, ⟨word, hw, rfl⟩, ha⟩, hp⟩

/-- A window holds where one of its days and one of its times do; a clause
without a window has no days or no times. -/
theorem Window.ofMeanings?_any (clause : List Meaning) (m : Moment) :
    ((Window.ofMeanings? clause).any fun w => w.holds m) =
      ((clause.filterMap Meaning.day?).any (fun r => r.holds m.day) &&
        (clause.filterMap Meaning.time?).any fun r => r.holds m.time) := by
  unfold ofMeanings?
  dsimp only
  split
  · next h =>
    simp only [Bool.or_eq_true, List.isEmpty_iff] at h
    rcases h with h | h <;> simp [h]
  · simp [Window.holds, DaySet.holds, TimeSet.holds, AnyOf.someLeaf_eq_any]

theorem Window.ofSegment?_any (segment : List Char) (m : Moment) :
    ((Window.ofSegment? segment).any fun w => w.holds m) = true ↔
      (∃ word : Word, IsWord word segment ∧ word.CoversDay m.day) ∧
        ∃ word : Word, IsWord word segment ∧ word.CoversTime m.time := by
  rw [ofSegment?, ofMeanings?_any, Bool.and_eq_true, Meaning.any_filterMap_ofWord,
    Meaning.any_filterMap_ofWord]
  simp only [IsWord, ← mem_words_iff, Word.coversDay_iff, Word.coversTime_iff]

/-! ### Lines -/

theorem Line.isSegment_append {segment label rest : List Char} (hl : Free isSemicolon label) :
    IsSegment segment (label ++ ';' :: rest) ↔ IsPart isSemicolon segment rest := by
  constructor
  · rintro ⟨label', rest', heq, hl', hs⟩
    obtain ⟨-, htail⟩ := Free.append_inj hl (free_isSemicolon.mpr hl') (ended_cons.mpr rfl)
      (ended_cons.mpr rfl) heq
    obtain ⟨-, rfl⟩ := List.cons.inj htail
    exact hs
  · intro hs
    exact ⟨label, rest, rfl, free_isSemicolon.mp hl, hs⟩

/-- A line gives a reminder that is active at the moments that it covers. -/
theorem Reminder.parse?_any (line : String) (m : Moment) :
    ((parse? line).any fun r => r.activeAt m) = true ↔ Covers line m := by
  rcases free_or_label line.toList with h | ⟨label, rest, heq, hl⟩
  · rw [parse?, parse_of_free h]
    refine iff_of_false (by simp [Except.toOption]) ?_
    rintro ⟨segment, ⟨label, rest, heq, -⟩, -⟩
    exact free_isSemicolon.mp h (by simp [heq])
  · have hany : ((parse? line).any fun r => r.activeAt m) =
        (pieces isSemicolon rest).any fun segment =>
          (Window.ofSegment? segment).any fun w => w.holds m := by
      have hwindows : ((pieces isSemicolon rest).any fun segment =>
          (Window.ofSegment? segment).any fun w => w.holds m) =
            ((pieces isSemicolon rest).filterMap Window.ofSegment?).any fun w => w.holds m := by
        rw [List.any_filterMap]
        rfl
      rw [parse?, parse_split heq hl, hwindows]
      split
      · next hw => simp [hw, Except.toOption]
      · rfl
    simp only [hany, List.any_eq_true, mem_pieces_iff, Window.ofSegment?_any, Covers, heq,
      isSegment_append hl]

instance (line : String) (m : Moment) : Decidable (Line.Covers line m) :=
  decidable_of_iff _ (Reminder.parse?_any line m)

theorem Reminder.label_of_parse {line : String} {r : Reminder} (h : parse line = .ok r) :
    r.label = labelOf line := by
  obtain ⟨label, rest, heq, hl, -, rfl⟩ := parse_eq_ok_iff.mp h
  have htake : line.toList.takeWhile (fun c => c ≠ ';') = label := by
    have hne : ∀ c ∈ label, decide (c ≠ ';') = true := fun c hc => by
      simpa [isSemicolon] using hl c hc
    rw [heq, List.takeWhile_append_of_pos hne]
    simp
  rw [labelOf, htake]

/-- The labels shown at a moment are those of the lines that cover it, in the
order of the lines. -/
theorem Agenda.labelsAt_ofLines (lines : List String) (m : Moment) :
    (Agenda.ofLines lines).labelsAt m =
      (lines.filter fun line => Covers line m).map labelOf := by
  simp only [labelsAt, activeAt, ofLines_reminders]
  induction lines with
  | nil => rfl
  | cons line rest ih =>
    have hcovers := Reminder.parse?_any line m
    cases hp : Reminder.parse line with
    | error e =>
      have hr : Reminder.parse? line = none := by rw [Reminder.parse?, hp]; rfl
      have hnot : ¬ Covers line m := by simpa [hr] using hcovers
      simpa [hr, hnot] using ih
    | ok r =>
      have hr : Reminder.parse? line = some r := by rw [Reminder.parse?, hp]; rfl
      have hlabel := Reminder.label_of_parse hp
      by_cases hc : Covers line m
      · have hactive : r.activeAt m = true := by simpa [hr, hc] using hcovers
        simpa [hr, hc, hactive, hlabel] using ih
      · have hactive : r.activeAt m = false := by simpa [hr, hc] using hcovers
        simpa [hr, hc, hactive] using ih

-- The span passes into the next week; the second line has the day and the time in two segments.
example : (Agenda.ofLines ["tea; fri-mon 9-10", "walk; sun 12-13; mon 9-10", "note"]).labelsAt
    ⟨.sun, ⟨545, by decide⟩⟩ = ["tea"] := by decide +kernel

end WeeklyAgenda

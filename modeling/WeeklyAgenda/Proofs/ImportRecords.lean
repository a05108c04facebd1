import Mathlib.Algebra.Group.Nat.Defs
import WeeklyAgenda.Agenda.Import
import WeeklyAgenda.Proofs.Meanings
import WeeklyAgenda.Proofs.Readings

/-! What an import records, told from its lines. Each line has a record for every
word that is not understood and then one record of its own, under its number; the
summary comes last. So no line and no word goes unrecorded, and the numbers in the
summary add up to the number of lines. -/

namespace WeeklyAgenda

open Line Pieces

/-- A record as it is written. -/
structure Record where
  level : Level
  message : String
  fields : List (String × Nat)
  deriving DecidableEq

def Event.record (e : Event) : Record := ⟨e.level, e.message, e.fields⟩

/-- The words behind the first semicolon, segment by segment. -/
def Line.wordsOf (line : String) : List Word :=
  (pieces isSemicolon line.toList).tail.flatMap (words isSeparator)

/-- Whether a word is a time range, if it starts with a digit, or a day or a span
of days, if it does not. -/
def Line.Word.isUnderstood (word : Word) : Bool :=
  if Numeral.startsWithDigit word then (TimeRange.ofWord? (Lowercase.lower word)).isSome
  else (DayRule.ofWord? (Lowercase.lower word)).isSome

namespace Record

def ofIgnored (word : Word) : Record :=
  let kind := if Numeral.startsWithDigit word then "time range" else "weekday"
  let lower := String.ofList (Lowercase.lower word)
  ⟨.debug, "Ignoring invalid " ++ kind ++ " `" ++ lower ++ "` in reminder entry", []⟩

/-- The records of the words that are not understood, in order. -/
def ignoredOf (line : String) : List Record :=
  ((wordsOf line).filter fun word => !word.isUnderstood).map ofIgnored

/-- The record of what a line gave, under its number. -/
def ofOutcome (number : Nat) : Except LineError Reminder → Record
  | .ok r => ⟨.trace, "Loaded reminder entry: " ++ r.text, [("line", number)]⟩
  | .error e => ⟨.debug, "Skipping invalid reminder entry: " ++ e.message, [("line", number)]⟩

def ofLine (line : String) (number : Nat) : List Record :=
  ignoredOf line ++ [ofOutcome number (Reminder.parse line)]

def summary (loaded skipped : Nat) : Record :=
  ⟨.info, "Loaded " ++ toString loaded ++ " reminder entries",
    [("loaded", loaded), ("skipped", skipped)]⟩

/-- The number of the line that a record is about. -/
def line? (r : Record) : Option Nat := r.fields.lookup "line"

end Record

/-! ### Words -/

theorem Line.wordsOf_of_free {line : String} (h : Free isSemicolon line.toList) :
    wordsOf line = [] := by
  rw [wordsOf, pieces_of_free h]
  rfl

theorem Line.wordsOf_split {line : String} {label rest : List Char}
    (heq : line.toList = label ++ ';' :: rest) (hl : Free isSemicolon label) :
    wordsOf line = (pieces isSemicolon rest).flatMap (words isSeparator) := by
  rw [wordsOf, heq, pieces_part rest hl rfl]
  rfl

/-- The words passed over are those of the line, also of clauses that are dropped. -/
theorem Line.Reading.ofLine_ignored (line : String) :
    (Reading.ofLine line).ignored =
      ((wordsOf line).map Meaning.ofWord).filterMap Meaning.ignored? := by
  rcases free_or_label line.toList with h | ⟨label, rest, heq, hl⟩
  · rw [ofLine_of_free h, wordsOf_of_free h]
    rfl
  · have hwords : (Layout.meanings
        ⟨label, (pieces isSemicolon rest).map (words isSeparator)⟩).flatten =
          (wordsOf line).map Meaning.ofWord := by
      rw [wordsOf_split heq hl, List.map_flatMap, List.flatMap_def, Layout.meanings, List.map_map]
      rfl
    rw [ofLine_of_fits (heq ▸ Grammar.fits_pieces hl rest), hwords]

/-- A word is understood as a day or as a time, or it is ignored under the record
that is due to it. -/
theorem Line.Meaning.cases_ofWord (word : Word) :
    (∃ r, ofWord word = .day r ∧ word.isUnderstood = true) ∨
      (∃ r, ofWord word = .time r ∧ word.isUnderstood = true) ∨
        ∃ w, ofWord word = .ignored w ∧ word.isUnderstood = false ∧
          (Event.ignored w).record = .ofIgnored word := by
  unfold ofWord ofLower Word.isUnderstood Record.ofIgnored
  rw [(Lowercase.folds_lower word).startsWithDigit_eq]
  split
  · cases TimeRange.ofWord? (Lowercase.lower word) with
    | some r => exact .inr (.inl ⟨r, rfl, rfl⟩)
    | none => exact .inr (.inr ⟨_, rfl, rfl, rfl⟩)
  · cases DayRule.ofWord? (Lowercase.lower word) with
    | some r => exact .inl ⟨r, rfl, rfl⟩
    | none => exact .inr (.inr ⟨_, rfl, rfl, rfl⟩)

theorem Record.map_ignored (line : String) :
    ((Reading.ofLine line).ignored.map Event.ignored).map Event.record = ignoredOf line := by
  rw [Reading.ofLine_ignored, ignoredOf]
  induction wordsOf line with
  | nil => rfl
  | cons word rest ih =>
    rcases Meaning.cases_ofWord word with ⟨r, hw, hu⟩ | ⟨r, hw, hu⟩ | ⟨w, hw, hu, hrec⟩
    · simpa [hw, hu, Meaning.ignored?, List.filterMap_cons, -List.filterMap_map] using ih
    · simpa [hw, hu, Meaning.ignored?, List.filterMap_cons, -List.filterMap_map] using ih
    · simpa [hw, hu, Meaning.ignored?, List.filterMap_cons, hrec, -List.filterMap_map] using ih

/-- Every word is recorded as ignored or understood as one rule. -/
theorem Record.length_ignoredOf (line : String) :
    let meanings := (wordsOf line).map Meaning.ofWord
    (ignoredOf line).length + (meanings.filterMap Meaning.day?).length +
      (meanings.filterMap Meaning.time?).length = (wordsOf line).length := by
  dsimp only
  rw [ignoredOf, List.length_map]
  induction wordsOf line with
  | nil => rfl
  | cons word rest ih =>
    rcases Meaning.cases_ofWord word with ⟨r, hw, hu⟩ | ⟨r, hw, hu⟩ | ⟨w, hw, hu, -⟩ <;>
      simp [hw, hu, Meaning.day?, Meaning.time?, List.filterMap_cons, -List.filterMap_map] <;> omega

/-! ### Lines -/

namespace Import

theorem Pass.cons_records (number : Nat) (line : String) (after : Pass) :
    (Pass.cons number (.ofLine line) after).events.map Event.record =
      Record.ofLine line number ++ after.events.map Event.record := by
  rw [Record.ofLine, ← Record.map_ignored, Reminder.parse]
  generalize Reading.ofLine line = reading
  rcases reading with ⟨ignored, e | r⟩
  · have hcons : (Pass.cons number ⟨ignored, .error e⟩ after).events =
        ignored.map .ignored ++ .skipped number e :: after.events := rfl
    rw [hcons, List.map_append, List.append_assoc]
    rfl
  · have hcons : (Pass.cons number ⟨ignored, .ok r⟩ after).events =
        ignored.map .ignored ++ .loaded number r :: after.events := rfl
    rw [hcons, List.map_append, List.append_assoc]
    rfl

theorem passFrom_records (number : Nat) (lines : List String) :
    (passFrom number lines).events.map Event.record =
      (lines.zipIdx number).flatMap fun (line, n) => Record.ofLine line n := by
  induction lines generalizing number with
  | nil => rfl
  | cons line rest ih => rw [passFrom, Pass.cons_records, ih, List.zipIdx_cons, List.flatMap_cons]

theorem Pass.cons_counts (number : Nat) (reading : Line.Reading) (after : Pass) :
    (Pass.cons number reading after).reminders.length +
        (Pass.cons number reading after).skipped =
      after.reminders.length + after.skipped + 1 := by
  simp only [Pass.cons]
  split <;> simp <;> omega

/-- Each line is counted, as one that gave a reminder or as one that did not. -/
theorem passFrom_counts (number : Nat) (lines : List String) :
    (passFrom number lines).reminders.length + (passFrom number lines).skipped =
      lines.length := by
  induction lines generalizing number with
  | nil => rfl
  | cons line rest ih => rw [passFrom, Pass.cons_counts, ih, List.length_cons]

end Import

/-! ### Levels and numbers -/

def Record.isTrace (r : Record) : Bool := r.level == .trace

theorem Record.of_mem_ignoredOf {line : String} {r : Record} (h : r ∈ ignoredOf line) :
    r.level = .debug ∧ r.fields = [] := by
  obtain ⟨word, -, rfl⟩ := List.mem_map.mp h
  exact ⟨rfl, rfl⟩

theorem Record.countP_isTrace_ofLine (line : String) (number : Nat) :
    (ofLine line number).countP isTrace = (Reminder.parse? line).toList.length := by
  have hignored : (ignoredOf line).countP isTrace = 0 := by
    rw [List.countP_eq_zero]
    intro r hr
    simp [isTrace, (of_mem_ignoredOf hr).1]
  rw [ofLine, List.countP_append, hignored, Reminder.parse?]
  cases Reminder.parse line <;> rfl

theorem Record.filterMap_line?_ofLine (line : String) (number : Nat) :
    (ofLine line number).filterMap line? = [number] := by
  have hignored : (ignoredOf line).filterMap line? = [] := by
    rw [List.filterMap_eq_nil_iff]
    intro r hr
    simp [line?, (of_mem_ignoredOf hr).2]
  rw [ofLine, List.filterMap_append, hignored]
  cases Reminder.parse line <;> rfl

namespace Import

theorem countP_isTrace (number : Nat) (lines : List String) :
    ((lines.zipIdx number).flatMap fun (line, n) => Record.ofLine line n).countP Record.isTrace =
      (lines.filterMap Reminder.parse?).length := by
  induction lines generalizing number with
  | nil => rfl
  | cons line rest ih =>
    rw [List.zipIdx_cons, List.flatMap_cons, List.countP_append, Record.countP_isTrace_ofLine, ih,
      List.filterMap_cons]
    cases Reminder.parse? line <;> simp [Nat.add_comm]

theorem filterMap_line? (number : Nat) (lines : List String) :
    ((lines.zipIdx number).flatMap fun (line, n) => Record.ofLine line n).filterMap Record.line? =
      List.range' number lines.length := by
  simp only [List.filterMap_flatMap, Record.filterMap_line?_ofLine]
  rw [← List.zipIdx_map_snd, List.map_eq_flatMap]

/-! ### Line by line -/

/-- An import in progress. Skipped lines are counted in a signed word of 32 bits. -/
structure Progress where
  taken : Nat
  reminders : List Reminder
  events : List Event
  skipped : Int32

namespace Progress

def start : Progress := ⟨0, [], [], 0⟩

def add (s : Progress) (reading : Line.Reading) : Progress :=
  let number := s.taken + 1
  let events := s.events ++ reading.ignored.map Event.ignored
  match reading.outcome with
  | .ok r => ⟨number, s.reminders ++ [r], events ++ [.loaded number r], s.skipped⟩
  | .error e => ⟨number, s.reminders, events ++ [.skipped number e], s.skipped + 1⟩

def take (s : Progress) (line : String) : Progress := s.add (.ofLine line)

def finish (s : Progress) : Import :=
  ⟨⟨s.reminders⟩, s.events ++ [.finished s.reminders.length s.skipped.toInt.toNat]⟩

def run (lines : List String) : Import := (lines.foldl take start).finish

/-- The progress after some more lines, with what they give. -/
def after (s : Progress) (lines : Nat) (pass : Pass) : Progress :=
  ⟨s.taken + lines, s.reminders ++ pass.reminders, s.events ++ pass.events,
    s.skipped + .ofNat pass.skipped⟩

theorem add_after (s : Progress) (reading : Line.Reading) (lines : Nat) (pass : Pass) :
    (s.add reading).after lines pass =
      s.after (lines + 1) (.cons (s.taken + 1) reading pass) := by
  rcases reading with ⟨ignored, e | r⟩
  · have hskipped : s.skipped + 1 + Int32.ofNat pass.skipped =
        s.skipped + Int32.ofNat (pass.skipped + 1) := by
      rw [Int32.ofNat_add, Int32.add_assoc, Int32.add_comm 1]
      rfl
    simp [add, after, Pass.cons, Nat.add_assoc, Nat.add_comm 1, hskipped]
  · simp [add, after, Pass.cons, Nat.add_assoc, Nat.add_comm 1]

theorem taken_add (s : Progress) (reading : Line.Reading) :
    (s.add reading).taken = s.taken + 1 := by
  rcases reading with ⟨ignored, e | r⟩ <;> rfl

theorem foldl_take (s : Progress) (lines : List String) :
    lines.foldl take s = s.after lines.length (passFrom (s.taken + 1) lines) := by
  induction lines generalizing s with
  | nil => simp [after, passFrom]
  | cons line rest ih =>
    rw [List.foldl_cons, ih, take, passFrom, List.length_cons, ← add_after, taken_add]

theorem run_eq {lines : List String} (h : lines.length < 2 ^ 31) : run lines = ofLines lines := by
  have hcounts := passFrom_counts 1 lines
  have hskipped : (Int32.ofNat (passFrom 1 lines).skipped).toInt = (passFrom 1 lines).skipped :=
    Int32.toInt_ofNat_of_lt (by omega)
  rw [run, foldl_take]
  simp [after, start, finish, ofLines, hskipped]

end Progress

/-- The records of an import are those of its lines, numbered from one, and a
summary. Each line is either loaded or skipped, under its own number, and each word
behind its first semicolon is either understood, as a day or as a time, or recorded
as ignored. A signed word of 32 bits is enough to count fewer than `2 ^ 31` lines. -/
theorem records_ofLines (lines : List String) :
    let imported := ofLines lines
    let records := imported.events.map Event.record
    let loaded := imported.agenda.size
    (∃ skipped, loaded + skipped = lines.length ∧
      records = (lines.zipIdx 1).flatMap (fun (line, number) => Record.ofLine line number) ++
        [.summary loaded skipped]) ∧
    records.countP Record.isTrace = loaded ∧
    records.filterMap Record.line? = List.range' 1 lines.length ∧
    (∀ line,
      let meanings := (wordsOf line).map Meaning.ofWord
      (Record.ignoredOf line).length + (meanings.filterMap Meaning.day?).length +
        (meanings.filterMap Meaning.time?).length = (wordsOf line).length) ∧
    (∀ line, ';' ∉ line.toList → Record.ignoredOf line = []) ∧
    (lines.length < 2 ^ 31 → Progress.run lines = imported) := by
  intro imported records loaded
  have hrecords : records = (lines.zipIdx 1).flatMap
      (fun (line, number) => Record.ofLine line number) ++
        [.summary loaded (passFrom 1 lines).skipped] := by
    rw [← passFrom_records]
    exact List.map_append
  refine ⟨⟨_, passFrom_counts 1 lines, hrecords⟩, ?trace, ?numbers, Record.length_ignoredOf,
    fun line hline => ?none, Progress.run_eq⟩
  case trace =>
    rw [hrecords, List.countP_append, countP_isTrace, ← Agenda.ofLines_reminders]
    rfl
  case numbers =>
    rw [hrecords, List.filterMap_append, filterMap_line?]
    exact List.append_nil _
  case none => rw [Record.ignoredOf, wordsOf_of_free (free_isSemicolon.mpr hline)]; rfl

-- The dropped clause of the first line has its record, and the second line keeps its number.
theorem records_ofLines_mixed :
    let lines := ["Tea; MON Ώ 9-10; 9-", "note", "Run; cn 7-8"]
    lines.length < 2 ^ 31 ∧ Progress.run lines = ofLines lines ∧
    ';' ∉ "note".toList ∧ Record.ignoredOf "note" = [] ∧
    (ofLines lines).events.map Event.record =
      [⟨.debug, "Ignoring invalid weekday `ώ` in reminder entry", []⟩,
        ⟨.debug, "Ignoring invalid time range `9-` in reminder entry", []⟩,
        ⟨.trace, "Loaded reminder entry: Tea (weekday: 2 time: 540-600)", [("line", 1)]⟩,
        .ofOutcome 2 (.error (.missingClause "note")),
        ⟨.trace, "Loaded reminder entry: Run (weekday: 1 time: 420-480)", [("line", 3)]⟩,
        ⟨.info, "Loaded 2 reminder entries", [("loaded", 2), ("skipped", 1)]⟩] := by
  intro lines
  obtain ⟨-, -, -, -, hnone, hrun⟩ := records_ofLines lines
  have hlength : lines.length < 2 ^ 31 := by decide
  have hnote : ';' ∉ "note".toList := by decide
  exact ⟨hlength, hrun hlength, hnote, hnone _ hnote, by decide +kernel⟩

end Import

end WeeklyAgenda

import WeeklyAgenda.Proofs.LowerCase
import WeeklyAgenda.Proofs.Readings

/-! A second reading of a line, in one pass without a grammar: the line is split
at its semicolons, each segment is put in lower case as a whole and split at its
separators, and its words are collected one by one as days or times. It agrees
with the first reading on every line. The grammar in turn matches exactly the
texts with a semicolon, each to its end and with the one layout that fits it. -/

namespace WeeklyAgenda

open Line Pieces

namespace SplitReading

def abbreviations : List (String × Weekday) :=
  [("t2", .mon), ("mon", .mon), ("t3", .tue), ("tue", .tue), ("t4", .wed), ("wed", .wed),
   ("t5", .thu), ("thu", .thu), ("t6", .fri), ("fri", .fri), ("cn", .sun), ("sun", .sun),
   ("t7", .sat), ("sat", .sat)]

def weekday? (name : List Char) : Option Weekday :=
  (abbreviations.find? fun (abbreviation, _) => abbreviation.toList == name).map Prod.snd

/-- The parts of a text that are not empty. -/
def filled (c : Char) (text : List Char) : List (List Char) :=
  (text.splitOn c).filter fun part => part ≠ []

def dayRule? (word : List Char) : Option DayRule :=
  match filled '-' word with
  | [day] => do return .on (← weekday? day)
  | [first, last] => do return .span (← weekday? first) (← weekday? last)
  | _ => none

def clockTime? (text : List Char) : Option ClockTime :=
  if ':' ∈ text then
    match filled ':' text with
    | [hour, minute] => do
      guard (Numeral.startsWithDigit hour)
      ClockTime.ofHourMinute? (← Numeral.read? hour) ((Numeral.read? minute).getD 0)
    | _ => none
  else do ClockTime.ofHourMinute? (← Numeral.read? text) 0

def timeRange? (word : List Char) : Option TimeRange :=
  match word.splitOn '-' with
  | [first, last] => do return ⟨← clockTime? first, ← clockTime? last⟩
  | _ => none

/-- The days and times of the words so far. -/
structure Found where
  days : List DayRule
  times : List TimeRange

def Found.add (found : Found) (word : List Char) : Found :=
  if Numeral.startsWithDigit word then
    { found with times := found.times ++ (timeRange? word).toList }
  else { found with days := found.days ++ (dayRule? word).toList }

/-- The text without separators at its ends. -/
def strip (text : List Char) : List Char :=
  ((text.dropWhile isSeparator).reverse.dropWhile isSeparator).reverse

/-- The words of a segment in lower case. -/
def lowerWords (segment : List Char) : List (List Char) :=
  ((Lowercase.lower (strip segment)).splitOnP isSeparator).filter fun word => word ≠ []

def window? (segment : List Char) : Option Window :=
  let found := (lowerWords segment).foldl Found.add ⟨[], []⟩
  if found.days = [] ∨ found.times = [] then none
  else some ⟨.among (found.days.map .leaf), .among (found.times.map .leaf)⟩

def read (line : String) : Except LineError Reminder :=
  match line.toList.splitOn ';' with
  | label :: segment :: segments =>
    match (segment :: segments).filterMap window? with
    | [] => .error .emptySchedule
    | windows => .ok ⟨String.ofList (Blank.trim label), ⟨windows⟩⟩
  | _ => .error (.missingClause line)

/-! ### Words -/

theorem filled_eq (c : Char) (text : List Char) : filled c text = words (· == c) text :=
  filter_splitOn c text

theorem weekday?_eq (name : List Char) : weekday? name = Weekday.ofAbbreviation? name := by
  by_cases h : name ∈ abbreviations.map fun entry => entry.1.toList
  · revert name
    decide
  · have hnone : weekday? name = none := by
      simp only [weekday?, Option.map_eq_none_iff, List.find?_eq_none, beq_iff_eq]
      exact fun entry he heq => h (List.mem_map.mpr ⟨entry, he, heq⟩)
    rw [hnone, eq_comm, Weekday.ofAbbreviation?, List.find?_eq_none]
    intro d _ hd
    simp only [Bool.or_eq_true, beq_iff_eq] at hd
    rcases hd with rfl | rfl <;> revert h <;> cases d <;> decide

theorem dayRule?_eq (word : List Char) : dayRule? word = DayRule.ofWord? word := by
  rw [dayRule?, DayRule.ofWord?, filled_eq]
  generalize words (· == '-') word = parts
  match parts with
  | [] => rfl
  | [day] =>
    simp only [weekday?_eq]
    cases Weekday.ofAbbreviation? day <;> rfl
  | [first, last] =>
    simp only [weekday?_eq]
    cases Weekday.ofAbbreviation? first <;> cases Weekday.ofAbbreviation? last <;> rfl
  | _ :: _ :: _ :: _ => rfl

theorem clockTime?_eq (text : List Char) : clockTime? text = ClockTime.ofText? text := by
  rw [clockTime?, ClockTime.ofText?, filled_eq]
  by_cases hcolon : ':' ∈ text
  · rw [if_pos hcolon, if_pos hcolon]
    generalize words (· == ':') text = parts
    match parts with
    | [] => rfl
    | [_] => rfl
    | [hour, minute] =>
      dsimp only
      by_cases hd : Numeral.startsWithDigit hour = true
      · rw [guard, if_pos hd, if_pos hd]
        rfl
      · rw [guard, if_neg hd, if_neg hd]
        rfl
    | _ :: _ :: _ :: _ => rfl
  · rw [if_neg hcolon, if_neg hcolon]
    rfl

theorem timeRange?_eq (word : List Char) : timeRange? word = TimeRange.ofWord? word := by
  rw [timeRange?, TimeRange.ofWord?, pieces_eq_splitOnP, List.splitOn_eq_splitOnP]
  generalize List.splitOnP (· == '-') word = parts
  match parts with
  | [] => rfl
  | [_] => rfl
  | [first, last] =>
    simp only [clockTime?_eq]
    cases ClockTime.ofText? first <;> cases ClockTime.ofText? last <;> rfl
  | _ :: _ :: _ :: _ => rfl

/-! ### Segments -/

/-- Each word is added as the meaning it has. -/
theorem add_eq (found : Found) (word : List Char) :
    found.add word = ⟨found.days ++ (Meaning.ofLower word).day?.toList,
      found.times ++ (Meaning.ofLower word).time?.toList⟩ := by
  unfold Found.add Meaning.ofLower
  split
  · rw [timeRange?_eq]
    cases TimeRange.ofWord? word <;> simp [Meaning.day?, Meaning.time?]
  · rw [dayRule?_eq]
    cases DayRule.ofWord? word <;> simp [Meaning.day?, Meaning.time?]

theorem foldl_add (ws : List (List Char)) (found : Found) :
    ws.foldl Found.add found =
      ⟨found.days ++ (ws.map Meaning.ofLower).filterMap Meaning.day?,
        found.times ++ (ws.map Meaning.ofLower).filterMap Meaning.time?⟩ := by
  induction ws generalizing found with
  | nil => simp
  | cons w ws ih =>
    rw [List.foldl_cons, ih, add_eq]
    simp only [List.map_cons, List.filterMap_cons, List.append_assoc]
    cases Meaning.ofLower w <;> rfl

theorem breaks_of_isSeparator {c : Char} (h : isSeparator c = true) : Lowercase.Breaks c := by
  simp only [isSeparator, Bool.or_eq_true, beq_iff_eq] at h
  rcases h with rfl | rfl
  · exact ⟨by decide +kernel, by decide +kernel, by decide +kernel⟩
  · exact ⟨by decide +kernel, by decide +kernel, by decide +kernel⟩

theorem words_strip (text : List Char) :
    words isSeparator (strip text) = words isSeparator text := by
  have hsplit := List.takeWhile_append_dropWhile (p := isSeparator)
    (l := (text.dropWhile isSeparator).reverse)
  rw [eq_comm, List.reverse_eq_append_iff] at hsplit
  rw [← words_dropWhile text, hsplit]
  exact (words_append_gap (fun c hc => List.mem_takeWhile_imp (List.mem_reverse.mp hc)) _).symm

/-- Lower case before splitting gives the words that it gives after. -/
theorem lowerWords_eq (segment : List Char) :
    lowerWords segment = (words isSeparator segment).map Lowercase.lower := by
  rw [← words_strip, ← Lowercase.words_lower (fun c => breaks_of_isSeparator), lowerWords, words,
    pieces_eq_splitOnP]
  congr 1
  funext part
  cases part <;> rfl

theorem window?_eq (segment : List Char) : window? segment = Window.ofSegment? segment := by
  have hw : (words isSeparator segment).map Meaning.ofWord =
      (lowerWords segment).map Meaning.ofLower := by
    rw [lowerWords_eq, List.map_map]
    rfl
  simp only [window?, foldl_add, List.nil_append, hw, Window.ofSegment?, Window.ofMeanings?,
    Bool.or_eq_true, List.isEmpty_iff]
  rfl

/-! ### Lines -/

theorem splitOn_eq_pieces (text : List Char) : text.splitOn ';' = pieces isSemicolon text := by
  rw [pieces_eq_splitOnP, List.splitOn_eq_splitOnP]
  rfl

theorem read_of_free {line : String} (h : Free isSemicolon line.toList) :
    read line = .error (.missingClause line) := by
  rw [read, splitOn_eq_pieces, pieces_of_free h]

theorem read_split {line : String} {label rest : List Char}
    (heq : line.toList = label ++ ';' :: rest) (hl : Free isSemicolon label) :
    read line =
      if (pieces isSemicolon rest).filterMap Window.ofSegment? = [] then .error .emptySchedule
      else .ok ⟨String.ofList (Blank.trim label),
        ⟨(pieces isSemicolon rest).filterMap Window.ofSegment?⟩⟩ := by
  have hne : pieces isSemicolon rest ≠ [] := by simp [pieces]
  obtain ⟨segment, segments, hp⟩ := List.exists_cons_of_ne_nil hne
  have hwindow : window? = Window.ofSegment? := funext window?_eq
  rw [read, splitOn_eq_pieces, heq, pieces_part rest hl rfl, hp, ← hwindow]
  cases hw : (segment :: segments).filterMap window? with
  | nil => simp only [hw, if_true]
  | cons w ws => simp only [hw, reduceCtorEq, if_false]

/-- Both readings agree on every line. -/
theorem read_eq_parse (line : String) : read line = Reminder.parse line := by
  rcases free_or_label line.toList with h | ⟨label, rest, heq, hl⟩
  · rw [read_of_free h, Reminder.parse_of_free h]
  · rw [read_split heq hl, Reminder.parse_split heq hl]

end SplitReading

/-- The grammar, taken by its rules as by its run, matches the texts with a
semicolon, each to its end and with the one layout that fits it; and the reminder
or the error of a line is what splitting finds. -/
theorem Line.Grammar.line_iff_fits_and_parse_eq_read (line : String) :
    (∀ o, Grammar.line.Matches line.toList o ↔ Grammar.line.run line.toList = o) ∧
    ((Grammar.line.run line.toList).isSome ↔ ';' ∈ line.toList) ∧
    (∀ l rest, Grammar.line.run line.toList = some (l, rest) ↔ rest = [] ∧ l.Fits line.toList) ∧
    ((∃ t, Reminder.parse line = .error (.missingClause t)) ↔ ';' ∉ line.toList) ∧
    Reminder.parse line = SplitReading.read line := by
  refine ⟨fun o => ?_, run_line_isSome, fun l rest => run_line_iff, ?_, ?_⟩
  · exact Pattern.matches_iff_run productive_line line.toList o
  · exact Reminder.parse_eq_missingClause_iff
  · exact (SplitReading.read_eq_parse line).symm

end WeeklyAgenda

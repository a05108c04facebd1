import WeeklyAgenda.Line.Writer
import WeeklyAgenda.Proofs.Meanings
import WeeklyAgenda.Proofs.Readings

/-! The reminders that lines give, and the lines that give them. A reminder that
was read is plain, and a plain reminder is read back from the line that it is
written as, with its rules and windows in the same order and none of them
changed. -/

namespace WeeklyAgenda

open Line Pieces

/-- A list of at least one alternative, with nothing nested in it. -/
def AnyOf.IsFlat {α : Type} (s : AnyOf α) : Prop := ∃ as, as ≠ [] ∧ s = .ofList as

structure Window.IsFlat (w : Window) : Prop where
  days : w.days.IsFlat
  times : w.times.IsFlat

/-- A label without semicolons and without blanks at its ends, and at least one
window, all of them flat. That times lie within the day is part of their type. -/
structure Reminder.IsPlain (r : Reminder) : Prop where
  no_semicolon : ';' ∉ r.label.toList
  trimmed : Blank.trim r.label.toList = r.label.toList
  windows_ne_nil : r.schedule.windows ≠ []
  flat : ∀ w ∈ r.schedule.windows, w.IsFlat

/-! ### Times -/

namespace Numeral

theorem read?_twoDigits {n : Nat} (h : n < 100) : read? (twoDigits n).toList = some n := by
  have hall : ∀ n < 100, read? (twoDigits n).toList = some n := by decide +kernel
  exact hall n h

theorem isDigit_twoDigits {n : Nat} (h : n < 100) :
    ∀ c ∈ (twoDigits n).toList, isDigit c = true := by
  have hall : ∀ n < 100, (twoDigits n).toList.all isDigit = true := by decide +kernel
  exact List.all_eq_true.mp (hall n h)

theorem startsWithDigit_twoDigits {n : Nat} (h : n < 100) (rest : List Char) :
    startsWithDigit ((twoDigits n).toList ++ rest) = true := by
  rw [twoDigits, String.toList_ofList]
  exact isDigit_twoDigits h _ (by simp [twoDigits])

end Numeral

namespace ClockTime

theorem toList_text (t : ClockTime) :
    t.text.toList =
      (Numeral.twoDigits t.hour).toList ++ ':' :: (Numeral.twoDigits t.minute).toList := by
  simp [text]

/-- A time is written with digits and a colon. -/
theorem free_text {isSep : Char → Bool} (hdigit : ∀ c, Numeral.isDigit c = true → isSep c = false)
    (hcolon : isSep ':' = false) (t : ClockTime) : Free isSep t.text.toList := by
  have hh := t.hour_lt
  have hm := t.minute_lt
  rw [toList_text]
  refine Free.append_cons ?_ hcolon ?_
  · exact fun c hc => hdigit c (Numeral.isDigit_twoDigits (by omega) c hc)
  · exact fun c hc => hdigit c (Numeral.isDigit_twoDigits (by omega) c hc)

theorem ofText?_text (t : ClockTime) : ofText? t.text.toList = some t := by
  have hh : t.hour < 100 := by have := t.hour_lt; omega
  have hm : t.minute < 100 := by have := t.minute_lt; omega
  have hfree : ∀ n < 100, Free (· == ':') (Numeral.twoDigits n).toList := by decide +kernel
  have hwords : words (· == ':') t.text.toList =
      [(Numeral.twoDigits t.hour).toList, (Numeral.twoDigits t.minute).toList] := by
    rw [toList_text, words_append_sep _ _ rfl,
      words_of_free (hfree _ hh) (by simp [Numeral.twoDigits]),
      words_of_free (hfree _ hm) (by simp [Numeral.twoDigits])]
    rfl
  have hdigit := Numeral.startsWithDigit_twoDigits hh []
  rw [List.append_nil] at hdigit
  rw [ofText?, if_pos (by simp [toList_text]), hwords]
  simp only [hdigit, if_true, Numeral.read?_twoDigits hh, Numeral.read?_twoDigits hm,
    Option.bind_some, Option.getD_some, ofHourMinute?_hour_minute]

end ClockTime

/-! ### Words -/

theorem Line.isWordEnd_of_isDigit {c : Char} (h : Numeral.isDigit c = true) :
    isWordEnd c = false := by
  have hne : ∀ s, Numeral.isDigit s = false → (c == s) = false := fun s => Numeral.ne_of_isDigit h
  simp only [isWordEnd, isSeparator, isSemicolon, hne ' ' (by decide), hne ',' (by decide),
    hne ';' (by decide), Bool.or_self]

namespace DayRule

theorem toList_word_span (a b : Weekday) :
    (span a b).word.toList = a.english.toList ++ '-' :: b.english.toList := by
  simp [word]

theorem toList_word_ne_nil (r : DayRule) : r.word.toList ≠ [] := by
  cases r with
  | on d => cases d <;> decide
  | span a b => simp [toList_word_span]

theorem free_word (r : DayRule) : Free isWordEnd r.word.toList := by
  have hname : ∀ d : Weekday, Free isWordEnd d.english.toList := by
    intro d
    cases d <;> decide
  cases r with
  | on d => exact hname d
  | span a b =>
    rw [toList_word_span]
    exact (hname a).append_cons (by decide) (hname b)

theorem lower_word (r : DayRule) : Lowercase.lower r.word.toList = r.word.toList := by
  have hname : ∀ d : Weekday, Lowercase.lower d.english.toList = d.english.toList := by
    intro d
    cases d <;> decide
  have hhyphen : Lowercase.Breaks '-' := ⟨by decide, by decide +kernel, by decide +kernel⟩
  cases r with
  | on d => exact hname d
  | span a b =>
    rw [toList_word_span, Lowercase.lower_append hhyphen, hname, hname]

/-- Spans are not turned and not made single days. -/
theorem ofWord?_word (r : DayRule) : ofWord? r.word.toList = some r := by
  have hname : ∀ d : Weekday, words (· == '-') d.english.toList = [d.english.toList] := by
    intro d
    cases d <;> decide
  rw [ofWord?_eq_some_iff]
  cases r with
  | on d => exact .inl ⟨_, d, hname d, .inl rfl, rfl⟩
  | span a b =>
    refine .inr ⟨_, _, a, b, ?_, .inl rfl, .inl rfl, rfl⟩
    rw [toList_word_span, words_append_sep _ _ rfl, hname, hname]
    rfl

theorem startsWithDigit_word (r : DayRule) : Numeral.startsWithDigit r.word.toList = false := by
  have hname : ∀ (d : Weekday) (rest : List Char),
      Numeral.startsWithDigit (d.english.toList ++ rest) = false := by
    intro d rest
    cases d <;> rfl
  cases r with
  | on d =>
    have h := hname d []
    rwa [List.append_nil] at h
  | span a b =>
    rw [toList_word_span]
    exact hname a _

theorem meaning_word (r : DayRule) : Meaning.ofWord r.word.toList = .day r := by
  rw [Meaning.ofWord, lower_word, Meaning.ofLower, if_neg (by simp [startsWithDigit_word]),
    ofWord?_word]

end DayRule

namespace TimeRange

theorem toList_word (r : TimeRange) :
    r.word.toList = r.first.text.toList ++ '-' :: r.last.text.toList := by
  simp [word]

/-- A range is written with digits, colons and a hyphen. -/
theorem free_word {isSep : Char → Bool} (hdigit : ∀ c, Numeral.isDigit c = true → isSep c = false)
    (hcolon : isSep ':' = false) (hhyphen : isSep '-' = false) (r : TimeRange) :
    Free isSep r.word.toList := by
  rw [toList_word]
  exact (r.first.free_text hdigit hcolon).append_cons hhyphen (r.last.free_text hdigit hcolon)

theorem startsWithDigit_word (r : TimeRange) : Numeral.startsWithDigit r.word.toList = true := by
  have hh : r.first.hour < 100 := by have := r.first.hour_lt; omega
  rw [toList_word, ClockTime.toList_text, List.append_assoc]
  exact Numeral.startsWithDigit_twoDigits hh _

/-- Lower case leaves a written range alone. -/
theorem lower_word (r : TimeRange) : Lowercase.lower r.word.toList = r.word.toList := by
  have hsign : Free (fun c => !Lowercase.isSign c) r.word.toList :=
    r.free_word (fun c hc => by simp [Numeral.isSign_of_isDigit hc]) (by decide) (by decide)
  have hall : ∀ c ∈ r.word.toList, Lowercase.isSign c = true := fun c hc => by
    simpa using hsign c hc
  exact ((Lowercase.folds_lower _).eq_of_left hall).symm

theorem ofWord?_word (r : TimeRange) : ofWord? r.word.toList = some r := by
  have hhyphen : ∀ t : ClockTime, '-' ∉ t.text.toList := fun t =>
    free_beq.mp (t.free_text (fun c hc => Numeral.ne_of_isDigit hc (by decide)) (by decide))
  exact ofWord?_eq_some_iff.mpr ⟨_, _, r.toList_word, hhyphen _, hhyphen _, r.first.ofText?_text,
    r.last.ofText?_text⟩

theorem meaning_word (r : TimeRange) : Meaning.ofWord r.word.toList = .time r := by
  rw [Meaning.ofWord, lower_word, Meaning.ofLower, if_pos r.startsWithDigit_word, ofWord?_word]

end TimeRange

/-! ### Clauses -/

namespace Window

def segment (w : Window) : List Char := (" ".intercalate w.words).toList

theorem toList_clause (w : Window) : w.clause.toList = ';' :: w.segment := by
  simp [clause, segment]

theorem free_of_mem_words {w : Window} {t : String} (h : t ∈ w.words) :
    t.toList ≠ [] ∧ Free isWordEnd t.toList := by
  rcases List.mem_append.mp h with hd | ht
  · obtain ⟨r, -, rfl⟩ := List.mem_map.mp hd
    exact ⟨r.toList_word_ne_nil, r.free_word⟩
  · obtain ⟨r, -, rfl⟩ := List.mem_map.mp ht
    exact ⟨by simp [r.toList_word],
      r.free_word (fun c => isWordEnd_of_isDigit) (by decide) (by decide)⟩

theorem words_segment (w : Window) :
    Pieces.words isSeparator w.segment = w.words.map String.toList := by
  rw [segment, String.toList_intercalate, words_intercalate (by simp) (by decide)]
  apply flatMap_words_of_free
  intro t ht
  obtain ⟨u, hu, rfl⟩ := List.mem_map.mp ht
  obtain ⟨hne, hfree⟩ := free_of_mem_words hu
  exact ⟨hne, (free_isWordEnd.mp hfree).1⟩

theorem free_segment (w : Window) : Free isSemicolon w.segment := by
  rw [segment, String.toList_intercalate]
  apply Free.intercalate (by decide)
  intro t ht
  obtain ⟨u, hu, rfl⟩ := List.mem_map.mp ht
  exact (free_isWordEnd.mp (free_of_mem_words hu).2).2

theorem daysOf_segment (w : Window) : daysOf w.segment = w.days.leaves := by
  simp [daysOf, words_segment, words, List.filterMap_map, Function.comp_def,
    DayRule.meaning_word, TimeRange.meaning_word, Meaning.day?]

theorem timesOf_segment (w : Window) : timesOf w.segment = w.times.leaves := by
  simp [timesOf, words_segment, words, List.filterMap_map, Function.comp_def,
    DayRule.meaning_word, TimeRange.meaning_word, Meaning.time?]

/-- The leaves are found again in their order. -/
theorem ofSegment?_segment {w : Window} (h : w.IsFlat) : ofSegment? w.segment = some w := by
  obtain ⟨days, times⟩ := w
  obtain ⟨⟨days, hdays, rfl⟩, ⟨times, htimes, rfl⟩⟩ := h
  rw [ofSegment?_eq_some_iff, daysOf_segment, timesOf_segment, AnyOf.leaves_ofList,
    AnyOf.leaves_ofList]
  exact ⟨hdays, htimes, rfl⟩

theorem isFlat_of_ofSegment? {segment : List Char} {w : Window} (h : ofSegment? segment = some w) :
    w.IsFlat := by
  obtain ⟨hdays, htimes, rfl⟩ := ofSegment?_eq_some_iff.mp h
  exact ⟨⟨_, hdays, rfl⟩, ⟨_, htimes, rfl⟩⟩

end Window

/-! ### Lines -/

namespace Reminder

theorem toList_toLine (r : Reminder) :
    r.toLine.toList =
      r.label.toList ++ (r.schedule.windows.map Window.segment).flatMap (';' :: ·) := by
  simp only [toLine, String.toList_append, String.toList_join, List.flatMap_map,
    Window.toList_clause]

theorem mem_of_mem_label {line : String} {r : Reminder} (h : parse line = .ok r) {c : Char}
    (hc : c ∈ r.label.toList) : c ∈ line.toList := by
  obtain ⟨label, rest, heq, -, -, rfl⟩ := parse_eq_ok_iff.mp h
  rw [String.toList_ofList] at hc
  rw [heq]
  exact List.mem_append_left _ (Blank.mem_of_mem_trim hc)

theorem isPlain_of_parse {line : String} {r : Reminder} (h : parse line = .ok r) : r.IsPlain := by
  obtain ⟨label, rest, -, hl, hne, rfl⟩ := parse_eq_ok_iff.mp h
  refine ⟨?_, ?_, hne, ?_⟩
  · rw [String.toList_ofList]
    exact fun hm => free_isSemicolon.mp hl (Blank.mem_of_mem_trim hm)
  · rw [String.toList_ofList, Blank.trim_trim]
  · intro w hw
    obtain ⟨segment, -, hsegment⟩ := List.mem_filterMap.mp hw
    exact Window.isFlat_of_ofSegment? hsegment

theorem parse_toLine {r : Reminder} (h : r.IsPlain) : parse r.toLine = .ok r := by
  have hwindows : (r.schedule.windows.map Window.segment).filterMap Window.ofSegment? =
      r.schedule.windows := by
    have hback : ∀ w ∈ r.schedule.windows, (Window.ofSegment? ∘ Window.segment) w = some w :=
      fun w hw => Window.ofSegment?_segment (h.flat w hw)
    rw [List.filterMap_map, List.filterMap_congr hback, List.filterMap_some]
  have hfree : ∀ s ∈ r.schedule.windows.map Window.segment, Free isSemicolon s := by
    intro s hs
    obtain ⟨w, -, rfl⟩ := List.mem_map.mp hs
    exact w.free_segment
  rw [parse_segments r.toList_toLine (free_isSemicolon.mpr h.no_semicolon)
    (by simpa using h.windows_ne_nil) hfree, hwindows, if_neg h.windows_ne_nil, h.trimmed,
    String.ofList_toList]

/-- The reminders that some line gives are the plain ones, and writing one gives
such a line. -/
theorem exists_parse_iff_isPlain_and_parse_toLine (r : Reminder) :
    ((∃ line, parse line = .ok r) ↔ r.IsPlain) ∧ (r.IsPlain → parse r.toLine = .ok r) := by
  refine ⟨⟨?_, fun h => ⟨r.toLine, parse_toLine h⟩⟩, parse_toLine⟩
  rintro ⟨line, h⟩
  exact isPlain_of_parse h

/-- A label with commas, digits and brackets, and rules that pass the end of the
week, hold at no time or say the same twice. -/
def intricate : Reminder :=
  ⟨"- 9, (12:00) call\nback",
    ⟨[⟨.ofList [.span .fri .mon, .span .tue .tue], .ofList [⟨.last, .midnight⟩]⟩,
      ⟨.ofList [.on .sun, .on .sun], .ofList [⟨.midnight, .midnight⟩, ⟨.midnight, .last⟩]⟩]⟩⟩

theorem parse_toLine_intricate :
    intricate.IsPlain ∧ parse intricate.toLine = .ok intricate := by
  have h : intricate.IsPlain := {
    no_semicolon := by decide
    trimmed := by decide
    windows_ne_nil := by simp [intricate]
    flat := by
      simp only [intricate, List.forall_mem_cons, List.not_mem_nil, false_implies, implies_true,
        and_true]
      exact ⟨⟨⟨_, by simp, rfl⟩, ⟨_, by simp, rfl⟩⟩, ⟨⟨_, by simp, rfl⟩, ⟨_, by simp, rfl⟩⟩⟩ }
  exact ⟨h, (exists_parse_iff_isPlain_and_parse_toLine intricate).2 h⟩

end Reminder

end WeeklyAgenda

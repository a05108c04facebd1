import Mathlib.Data.List.TakeWhile
import WeeklyAgenda.Line.Reading
import WeeklyAgenda.Proofs.Layouts

/-! What reading a line comes to, without the grammar: a line without a semicolon
has no reminder, and any other is read from its label and the words of its
segments. -/

namespace WeeklyAgenda

open Line Pieces

/-! ### Labels -/

namespace Blank

theorem trimStart_append {before : List Char} (h : ∀ c ∈ before, isBlank c = true)
    (text : List Char) : trimStart (before ++ text) = trimStart text :=
  List.dropWhile_append_of_pos h

theorem trimEnd_append (text : List Char) {after : List Char} (h : ∀ c ∈ after, isBlank c = true) :
    trimEnd (text ++ after) = trimEnd text := by
  rw [trimEnd, List.reverse_append,
    List.dropWhile_append_of_pos fun c hc => h c (List.mem_reverse.mp hc), trimEnd]

theorem trim_surround {before after : List Char} (hb : ∀ c ∈ before, isBlank c = true)
    (text : List Char) (ha : ∀ c ∈ after, isBlank c = true) :
    trim (before ++ text ++ after) = trim text := by
  rw [trim, List.append_assoc, trimStart_append hb, trimStart, List.dropWhile_append]
  split
  · next hblank =>
    have hafter : after.dropWhile isBlank = [] := List.dropWhile_eq_nil_iff.mpr ha
    rw [hafter, trim, trimStart, List.isEmpty_iff.mp hblank]
  · exact trimEnd_append _ ha

/-- What is trimmed off a text are blanks on both sides. -/
theorem exists_surround (text : List Char) :
    ∃ before after, text = before ++ trim text ++ after ∧
      (∀ c ∈ before, isBlank c = true) ∧ ∀ c ∈ after, isBlank c = true := by
  have hstart : text.takeWhile isBlank ++ trimStart text = text := List.takeWhile_append_dropWhile
  have hend : trim text ++ ((trimStart text).reverse.takeWhile isBlank).reverse =
      trimStart text := by
    rw [trim, trimEnd, ← List.reverse_append, List.takeWhile_append_dropWhile,
      List.reverse_reverse]
  exact ⟨_, _, by rw [List.append_assoc, hend, hstart], fun c => List.mem_takeWhile_imp,
    fun c hc => List.mem_takeWhile_imp (List.mem_reverse.mp hc)⟩

theorem mem_of_mem_trim {c : Char} {text : List Char} (h : c ∈ trim text) : c ∈ text := by
  obtain ⟨before, after, htext, -⟩ := exists_surround text
  rw [htext]
  exact List.mem_append_left _ (List.mem_append_right _ h)

theorem trim_trim (text : List Char) : trim (trim text) = trim text := by
  obtain ⟨before, after, htext, hb, ha⟩ := exists_surround text
  rw [← trim_surround hb (trim text) ha, ← htext]

theorem free_of_isBlank {text : List Char} (h : ∀ c ∈ text, isBlank c = true) : ';' ∉ text :=
  fun hm => absurd (h ';' hm) (by decide)

end Blank

/-! ### Segments -/

/-- The window of a segment, if its words give one. -/
def Window.ofSegment? (segment : List Char) : Option Window :=
  Window.ofMeanings? ((Pieces.words isSeparator segment).map Meaning.ofWord)

/-- The days that the words of a segment name, in order. -/
def Line.daysOf (segment : List Char) : List DayRule :=
  (Pieces.words isSeparator segment).filterMap fun word => (Meaning.ofWord word).day?

/-- The times that the words of a segment name, in order. -/
def Line.timesOf (segment : List Char) : List TimeRange :=
  (Pieces.words isSeparator segment).filterMap fun word => (Meaning.ofWord word).time?

theorem Line.daysOf_append {a b : List Char} (h : Begun isSeparator a ∨ Ended isSeparator b) :
    daysOf (a ++ b) = daysOf a ++ daysOf b := by
  rw [daysOf, words_append h, List.filterMap_append, daysOf, daysOf]

theorem Line.timesOf_append {a b : List Char} (h : Begun isSeparator a ∨ Ended isSeparator b) :
    timesOf (a ++ b) = timesOf a ++ timesOf b := by
  rw [timesOf, words_append h, List.filterMap_append, timesOf, timesOf]

/-- A segment has a window if it names a day and a time. -/
theorem Window.ofSegment?_eq (segment : List Char) :
    ofSegment? segment =
      if daysOf segment = [] ∨ timesOf segment = [] then none
      else some ⟨.ofList (daysOf segment), .ofList (timesOf segment)⟩ := by
  simp only [ofSegment?, ofMeanings?, List.filterMap_map, Bool.or_eq_true, List.isEmpty_iff]
  rfl

theorem Window.ofSegment?_eq_some_iff {segment : List Char} {w : Window} :
    ofSegment? segment = some w ↔
      daysOf segment ≠ [] ∧ timesOf segment ≠ [] ∧
        w = ⟨.ofList (daysOf segment), .ofList (timesOf segment)⟩ := by
  rw [ofSegment?_eq, Option.ite_none_left_eq_some, not_or, Option.some.injEq, and_assoc,
    eq_comm (b := w)]

/-- A segment is read as another one that names the same days and times. -/
theorem Window.ofSegment?_congr {s t : List Char} (hdays : daysOf s = daysOf t)
    (htimes : timesOf s = timesOf t) : ofSegment? s = ofSegment? t := by
  rw [ofSegment?_eq, ofSegment?_eq, hdays, htimes]

theorem Window.ofSegment?_eq_none_iff {segment : List Char} :
    ofSegment? segment = none ↔ daysOf segment = [] ∨ timesOf segment = [] := by
  rw [ofSegment?_eq]
  split <;> simp_all

/-- Behind its last semicolon a line has its last segment. -/
theorem Line.exists_last_segment {text : List Char} (hm : ';' ∈ text) :
    ∃ front segment, text = front ++ ';' :: segment ∧ Free isSemicolon segment := by
  induction text using parts_induction isSemicolon with
  | last text hfree => exact absurd hm (free_isSemicolon.mp hfree)
  | first part s rest hp hs ih =>
    obtain rfl := isSemicolon_iff.mp hs
    by_cases hrest : ';' ∈ rest
    · obtain ⟨front, segment, rfl, hfree⟩ := ih hrest
      exact ⟨part ++ ';' :: front, segment, by simp, hfree⟩
    · exact ⟨part, rest, rfl, free_isSemicolon.mpr hrest⟩

/-- What follows a line goes into its last segment up to the next semicolon, and into
segments of its own from there. -/
theorem Line.pieces_append_last {front segment back first : List Char} {others : List (List Char)}
    (hfree : Free isSemicolon segment) (hback : pieces isSemicolon back = first :: others) :
    pieces isSemicolon (front ++ ';' :: segment ++ back) =
      pieces isSemicolon front ++ (segment ++ first) :: others := by
  apply pieces_append _ hback
  rw [pieces_append_sep front segment rfl, pieces_of_free hfree]

/-- Within a segment only separators end words. -/
theorem Line.isSeparator_of_isWordEnd {c : Char} (h : isWordEnd c = true)
    (hs : isSemicolon c = false) : isSeparator c = true := by
  simpa [isWordEnd, hs] using h

theorem Line.begun_isSeparator {front segment : List Char} (hfree : Free isSemicolon segment)
    (h : Begun isWordEnd (front ++ ';' :: segment)) : Begun isSeparator segment := fun c hc =>
  isSeparator_of_isWordEnd (h.near ⟨front ++ [';'], by simp⟩ c hc)
    (hfree c (List.mem_of_getLast? hc))

theorem Line.ended_isSeparator {back first : List Char} {others : List (List Char)}
    (hback : pieces isSemicolon back = first :: others) (h : Ended isWordEnd back) :
    Ended isSeparator first := by
  have hfree : Free isSemicolon first :=
    @Grammar.free_of_mem_pieces first back (by simp [hback])
  exact fun c hc => isSeparator_of_isWordEnd (h.near (prefix_of_pieces hback) c hc)
    (hfree c (List.mem_of_head? hc))

/-! ### Lines -/

-- The layout is generalized first: with the line in it, reducing the match would run the grammar.

theorem Line.Reading.ofLine_of_fits {line : String} {l : Layout} (h : l.Fits line.toList) :
    Reading.ofLine line =
      ⟨l.meanings.flatten.filterMap Meaning.ignored?, Reminder.ofClauses l.label l.meanings⟩ := by
  have hread := Grammar.read?_of_fits h
  unfold Reading.ofLine
  generalize Grammar.read? line.toList = found at hread
  subst hread
  rfl

theorem Line.Reading.ofLine_of_free {line : String} (h : Free isSemicolon line.toList) :
    Reading.ofLine line = ⟨[], .error (.missingClause line)⟩ := by
  have hread := Grammar.read?_of_free h
  unfold Reading.ofLine
  generalize Grammar.read? line.toList = found at hread
  subst hread
  rfl

namespace Reminder

theorem parse?_eq_some_iff {line : String} {r : Reminder} :
    parse? line = some r ↔ parse line = .ok r := by
  rw [parse?]
  cases parse line <;> simp [Except.toOption]

theorem parse_of_free {line : String} (h : Free isSemicolon line.toList) :
    parse line = .error (.missingClause line) := by
  rw [parse, Reading.ofLine_of_free h]

theorem parse_of_fits {line : String} {l : Layout} (h : l.Fits line.toList) :
    parse line = ofClauses l.label l.meanings := by
  rw [parse, Reading.ofLine_of_fits h]

theorem ofClauses_eq (label : List Char) (clauses : List (List Meaning)) :
    ofClauses label clauses =
      if clauses.filterMap Window.ofMeanings? = [] then .error .emptySchedule
      else .ok ⟨String.ofList (Blank.trim label), ⟨clauses.filterMap Window.ofMeanings?⟩⟩ := by
  unfold ofClauses
  split <;> simp_all

/-- The windows of the line are those of its segments. -/
theorem parse_segments {line : String} {label : List Char} {segments : List (List Char)}
    (heq : line.toList = label ++ segments.flatMap (';' :: ·)) (hl : Free isSemicolon label)
    (hne : segments ≠ []) (hfree : ∀ s ∈ segments, Free isSemicolon s) :
    parse line =
      if segments.filterMap Window.ofSegment? = [] then .error .emptySchedule
      else .ok ⟨String.ofList (Blank.trim label), ⟨segments.filterMap Window.ofSegment?⟩⟩ := by
  have hwindows : (Layout.meanings ⟨label, segments.map (words isSeparator)⟩).filterMap
      Window.ofMeanings? = segments.filterMap Window.ofSegment? := by
    simp only [Layout.meanings, List.map_map, List.filterMap_map]
    rfl
  rw [parse_of_fits (heq ▸ Grammar.fits_segments hl hne hfree), ofClauses_eq, hwindows]

theorem parse_split {line : String} {label rest : List Char}
    (heq : line.toList = label ++ ';' :: rest) (hl : Free isSemicolon label) :
    parse line =
      if (pieces isSemicolon rest).filterMap Window.ofSegment? = [] then .error .emptySchedule
      else .ok ⟨String.ofList (Blank.trim label),
        ⟨(pieces isSemicolon rest).filterMap Window.ofSegment?⟩⟩ := by
  rw [← Grammar.flatMap_pieces] at heq
  exact parse_segments heq hl (by simp [pieces]) fun s hs => Grammar.free_of_mem_pieces hs

/-- The first part of a line is the label and the others are the segments. -/
theorem parse_pieces {line : String} {label : List Char} {segments : List (List Char)}
    (hm : ';' ∈ line.toList) (h : pieces isSemicolon line.toList = label :: segments) :
    parse line =
      if segments.filterMap Window.ofSegment? = [] then .error .emptySchedule
      else .ok ⟨String.ofList (Blank.trim label), ⟨segments.filterMap Window.ofSegment?⟩⟩ := by
  rcases free_or_label line.toList with hf | ⟨label', rest, heq, hl⟩
  · exact absurd hm (free_isSemicolon.mp hf)
  · rw [heq, pieces_part rest hl rfl] at h
    obtain ⟨rfl, rfl⟩ := List.cons.inj h
    exact parse_split heq hl

/-- A reminder comes from a line with a label and at least one window. -/
theorem parse_eq_ok_iff {line : String} {r : Reminder} :
    parse line = .ok r ↔
      ∃ label rest, line.toList = label ++ ';' :: rest ∧ Free isSemicolon label ∧
        (pieces isSemicolon rest).filterMap Window.ofSegment? ≠ [] ∧
        r = ⟨String.ofList (Blank.trim label),
          ⟨(pieces isSemicolon rest).filterMap Window.ofSegment?⟩⟩ := by
  constructor
  · intro h
    rcases free_or_label line.toList with hf | ⟨label, rest, heq, hl⟩
    · rw [parse_of_free hf] at h
      cases h
    · rw [parse_split heq hl] at h
      split at h
      · cases h
      · next hne =>
        cases h
        exact ⟨label, rest, heq, hl, hne, rfl⟩
  · rintro ⟨label, rest, heq, hl, hne, rfl⟩
    rw [parse_split heq hl, if_neg hne]

theorem parse_eq_missingClause_iff {line : String} :
    (∃ t, parse line = .error (.missingClause t)) ↔ ';' ∉ line.toList := by
  rw [← free_isSemicolon]
  refine ⟨?_, fun h => ⟨line, parse_of_free h⟩⟩
  rintro ⟨t, ht⟩
  rcases free_or_label line.toList with h | ⟨label, rest, heq, hl⟩
  · exact h
  · rw [parse_split heq hl] at ht
    split at ht <;> cases ht

end Reminder

end WeeklyAgenda

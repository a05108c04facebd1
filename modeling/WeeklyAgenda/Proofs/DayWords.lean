import WeeklyAgenda.Proofs.Meanings
import WeeklyAgenda.Proofs.Readings

/-! The words that are days or spans of days. Words are put in lower case by the rules
of all scripts, but for days it comes to the same as to put the letters of ASCII in
lower case and leave all others: a character beyond ASCII leaves a mark in the lower
case that no name of a day has. So the case of the letters of ASCII behind the label
makes no difference to a line, and no other letter is taken for one of them. -/

namespace WeeklyAgenda

open Line Pieces Lowercase

/-! ### Names of days -/

theorem Weekday.Named.not_isForeign {d : Weekday} {name : List Char} (h : d.Named name) {c : Char}
    (hc : c ∈ name) : ¬ IsForeign c := by
  have hnames : ∀ d : Weekday, Free (fun c => decide (IsForeign c)) d.english.toList ∧
      Free (fun c => decide (IsForeign c)) d.vietnamese.toList := by
    intro d
    cases d <;> decide
  rcases h with rfl | rfl
  · exact of_decide_eq_false ((hnames d).1 c hc)
  · exact of_decide_eq_false ((hnames d).2 c hc)

namespace DayRule

/-- A word for days is made of names of days and hyphens. -/
theorem not_isForeign_of_ofWord? {word : Word} {r : DayRule} (h : ofWord? word = some r)
    {c : Char} (hc : c ∈ word) : ¬ IsForeign c := by
  by_cases hhyphen : c = '-'
  · subst hhyphen
    rintro (hle | hk)
    · exact absurd hle (by decide)
    · cases hk
  · have hsep : (c == '-') = false := beq_eq_false_iff_ne.mpr hhyphen
    obtain ⟨part, hpart, hm⟩ := @exists_mem_words _ (· == '-') c word hc hsep
    rcases ofWord?_eq_some_iff.mp h with
      ⟨name, d, hw, hd, -⟩ | ⟨first, last, a, b, hw, ha, hb, -⟩
    · rw [hw, List.mem_singleton] at hpart
      exact (hpart ▸ hd).not_isForeign hm
    · rw [hw, List.mem_pair] at hpart
      rcases hpart with rfl | rfl
      · exact ha.not_isForeign hm
      · exact hb.not_isForeign hm

theorem ofWord?_of_foreign {word : Word} (h : ∃ c ∈ word, IsForeign c) : ofWord? word = none := by
  obtain ⟨c, hc, hforeign⟩ := h
  exact Option.eq_none_iff_forall_ne_some.mpr fun r hr => not_isForeign_of_ofWord? hr hc hforeign

/-- A word is put in lower case letter by letter, or it names no day in either way. -/
theorem ofWord?_lower (word : Word) :
    ofWord? (lower word) = ofWord? (word.map Char.toLower) := by
  by_cases h : ∃ c ∈ word, 0x80 ≤ c.toNat
  · obtain ⟨c, hc, hle⟩ := h
    have hmap : ∃ x ∈ word.map Char.toLower, IsForeign x :=
      ⟨c, List.mem_map.mpr ⟨c, hc, toLower_of_le hle⟩, .inl hle⟩
    rw [ofWord?_of_foreign (exists_foreign_lower hc hle), ofWord?_of_foreign hmap]
  · rw [lower_of_ascii fun c hc => Nat.lt_of_not_le fun hle => h ⟨c, hc, hle⟩]

theorem words_map_toLower (word : Word) :
    words (· == '-') (word.map Char.toLower) =
      ((word.splitOn '-').filter fun part => part ≠ []).map (List.map Char.toLower) := by
  rw [filter_splitOn]
  exact words_map (isSep_toLower (isSign_of_beq (by decide))) word

theorem ofWord?_lower_eq_on_iff {word : Word} {d : Weekday} :
    ofWord? (lower word) = some (.on d) ↔
      ∃ name, (word.splitOn '-').filter (fun part => part ≠ []) = [name] ∧
        d.Named (name.map Char.toLower) := by
  rw [ofWord?_lower, ofWord?_eq_some_iff, words_map_toLower]
  constructor
  · rintro (⟨name, a, hw, ha, heq⟩ | ⟨first, last, a, b, -, -, -, heq⟩)
    · cases heq
      obtain ⟨part, hpart, rfl⟩ := List.map_eq_singleton_iff.mp hw
      exact ⟨part, hpart, ha⟩
    · cases heq
  · rintro ⟨name, hw, hd⟩
    exact .inl ⟨_, d, by rw [hw]; rfl, hd, rfl⟩

theorem ofWord?_lower_eq_span_iff {word : Word} {a b : Weekday} :
    ofWord? (lower word) = some (.span a b) ↔
      ∃ first last, (word.splitOn '-').filter (fun part => part ≠ []) = [first, last] ∧
        a.Named (first.map Char.toLower) ∧ b.Named (last.map Char.toLower) := by
  rw [ofWord?_lower, ofWord?_eq_some_iff, words_map_toLower]
  constructor
  · rintro (⟨name, d, -, -, heq⟩ | ⟨first, last, c, d, hw, hc, hd, heq⟩)
    · cases heq
    · cases heq
      obtain ⟨p, rest, hparts, rfl, hrest⟩ := List.map_eq_cons_iff.mp hw
      obtain ⟨q, rfl, rfl⟩ := List.map_eq_singleton_iff.mp hrest
      exact ⟨p, q, hparts, hc, hd⟩
  · rintro ⟨first, last, hw, ha, hb⟩
    exact .inr ⟨_, _, a, b, by rw [hw]; rfl, ha, hb, rfl⟩

end DayRule

/-! ### Meanings -/

theorem Line.Meaning.day?_map_toLower (word : Word) :
    (ofWord (word.map Char.toLower)).day? = (ofWord word).day? := by
  have hidem : (word.map Char.toLower).map Char.toLower = word.map Char.toLower := by
    simp only [List.map_map, Function.comp_def, toLower_toLower]
  rw [day?_ofWord, day?_ofWord, DayRule.ofWord?_lower, DayRule.ofWord?_lower, hidem]

theorem Line.Meaning.time?_map_toLower (word : Word) :
    (ofWord (word.map Char.toLower)).time? = (ofWord word).time? := by
  rw [time?_ofWord, time?_ofWord, ← (folds_map_toLower word).startsWithDigit_eq,
    ← (folds_map_toLower word).timeRange_eq]

/-- A day has no character beyond ASCII, in whatever case. -/
theorem Line.Meaning.lt_of_ofWord_eq_day {word : Word} {r : DayRule} (h : ofWord word = .day r) :
    ∀ c ∈ word, c.toNat < 0x80 := by
  intro c hc
  rw [← day?_eq_some_iff, day?_ofWord] at h
  refine Nat.lt_of_not_le fun hle => ?_
  obtain ⟨x, hx, hforeign⟩ := exists_foreign_lower hc hle
  exact DayRule.not_isForeign_of_ofWord? h hx hforeign

theorem Line.Meaning.ofWord_ne_time {word : Word} (h : Numeral.startsWithDigit word = false)
    (r : TimeRange) : ofWord word ≠ .time r := by
  intro htime
  have hsome := time?_ofWord word
  rw [htime, h] at hsome
  cases hsome

/-! ### Lines -/

theorem Line.isSign_of_isSeparator (c : Char) (h : isSeparator c = true) : isSign c = true := by
  simp only [isSeparator, Bool.or_eq_true, beq_iff_eq] at h
  rcases h with rfl | rfl <;> decide

theorem Window.ofSegment?_map_toLower (segment : List Char) :
    ofSegment? (segment.map Char.toLower) = ofSegment? segment := by
  have hwords := words_map (isSep_toLower isSign_of_isSeparator) segment
  apply ofSegment?_congr
  · simp only [daysOf, hwords, List.filterMap_map, Function.comp_def, Meaning.day?_map_toLower]
  · simp only [timesOf, hwords, List.filterMap_map, Function.comp_def, Meaning.time?_map_toLower]

theorem Window.filterMap_map_toLower (text : List Char) :
    (pieces isSemicolon (text.map Char.toLower)).filterMap ofSegment? =
      (pieces isSemicolon text).filterMap ofSegment? := by
  have hsep : ∀ c, isSemicolon c = true → isSign c = true := isSign_of_beq (by decide)
  rw [pieces_map (isSep_toLower hsep), List.filterMap_map]
  exact List.filterMap_congr fun segment _ => ofSegment?_map_toLower segment

/-- A letter of ASCII in the same or in the other case, or the same character. -/
def Line.CaseChanged (c c' : Char) : Prop := c' = c ∨ c' = c.toLower ∨ c' = c.toUpper

instance (c c' : Char) : Decidable (CaseChanged c c') :=
  inferInstanceAs (Decidable (c' = c ∨ c' = c.toLower ∨ c' = c.toUpper))

theorem Line.CaseChanged.toLower_eq {c c' : Char} (h : CaseChanged c c') :
    c'.toLower = c.toLower := by
  rcases h with rfl | rfl | rfl
  · rfl
  · exact toLower_toLower c
  · exact toLower_toUpper c

theorem Line.CaseChanged.map_toLower_eq {s t : List Char} (h : List.Forall₂ CaseChanged s t) :
    t.map Char.toLower = s.map Char.toLower := by
  induction h with
  | nil => rfl
  | cons hc _ ih => rw [List.map_cons, List.map_cons, hc.toLower_eq, ih]

theorem Reminder.parse_caseChanged {label rest rest' : List Char} (hl : ';' ∉ label)
    (h : List.Forall₂ CaseChanged rest rest') :
    parse (String.ofList (label ++ ';' :: rest')) =
      parse (String.ofList (label ++ ';' :: rest)) := by
  have hwindows : (pieces isSemicolon rest').filterMap Window.ofSegment? =
      (pieces isSemicolon rest).filterMap Window.ofSegment? := by
    rw [← Window.filterMap_map_toLower rest', CaseChanged.map_toLower_eq h,
      Window.filterMap_map_toLower]
  rw [parse_split String.toList_ofList (free_isSemicolon.mpr hl),
    parse_split String.toList_ofList (free_isSemicolon.mpr hl), hwindows]

/-- For days, the lower case of a word is that of its letters of ASCII: a word is a day or
a span of days if what is left of it between hyphens are names in that lower case. No
word with a character beyond ASCII is a day, and none that starts with no digit is a
time. So a line is read alike in whatever case the letters of ASCII behind its first
semicolon are, with the same label. -/
theorem Line.days_fold_ascii_only :
    (∀ word : Word,
      (∀ r, Meaning.ofWord word = .day r ↔ DayRule.ofWord? (lower word) = some r) ∧
      (∀ d, DayRule.ofWord? (lower word) = some (.on d) ↔
        ∃ name, (word.splitOn '-').filter (fun part => part ≠ []) = [name] ∧
          d.Named (name.map Char.toLower)) ∧
      (∀ a b, DayRule.ofWord? (lower word) = some (.span a b) ↔
        ∃ first last, (word.splitOn '-').filter (fun part => part ≠ []) = [first, last] ∧
          a.Named (first.map Char.toLower) ∧ b.Named (last.map Char.toLower)) ∧
      (∀ r, Meaning.ofWord word = .day r → ∀ c ∈ word, c.toNat < 0x80) ∧
      (Numeral.startsWithDigit word = false →
        Numeral.startsWithDigit (lower word) = false ∧ ∀ r, Meaning.ofWord word ≠ .time r)) ∧
    ∀ label rest rest' : List Char, ';' ∉ label → List.Forall₂ CaseChanged rest rest' →
      Reminder.parse (String.ofList (label ++ ';' :: rest')) =
        Reminder.parse (String.ofList (label ++ ';' :: rest)) ∧
      ∀ r, Reminder.parse (String.ofList (label ++ ';' :: rest)) = .ok r →
        r.label = String.ofList (Blank.trim label) := by
  refine ⟨fun word => ⟨fun r => ?_, fun d => DayRule.ofWord?_lower_eq_on_iff,
    fun a b => DayRule.ofWord?_lower_eq_span_iff, fun r => Meaning.lt_of_ofWord_eq_day,
    fun h => ⟨?_, Meaning.ofWord_ne_time h⟩⟩, fun label rest rest' hl h =>
      ⟨Reminder.parse_caseChanged hl h, fun r hr => ?_⟩⟩
  · rw [← Meaning.day?_eq_some_iff, Meaning.day?_ofWord]
  · rw [← (folds_lower word).startsWithDigit_eq, h]
  · rw [Reminder.parse_split String.toList_ofList (free_isSemicolon.mpr hl)] at hr
    split at hr
    · cases hr
    · cases hr
      rfl

-- The dotted capital I and the Kelvin sign have letters of ASCII in their lower case.
theorem Line.days_fold_ascii_only_label_kept :
    ';' ∉ "Ring MOM".toList ∧
      List.Forall₂ CaseChanged " wEd-CN 9:XX-10 İ \u212A".toList
        " Wed-cn 9:xx-10 İ \u212A".toList ∧
      Reminder.parse "Ring MOM; Wed-cn 9:xx-10 İ \u212A" =
        .ok ⟨"Ring MOM", ⟨[⟨.ofList [.span .wed .sun],
          .ofList [⟨⟨540, by decide⟩, ⟨600, by decide⟩⟩]⟩]⟩⟩ := by
  have hl : ';' ∉ "Ring MOM".toList := by decide
  have hc : List.Forall₂ CaseChanged " wEd-CN 9:XX-10 İ \u212A".toList
      " Wed-cn 9:xx-10 İ \u212A".toList := by decide
  exact ⟨hl, hc, (days_fold_ascii_only.2 _ _ _ hl hc).1.trans (by decide +kernel)⟩

end WeeklyAgenda

import WeeklyAgenda.Line.Word
import WeeklyAgenda.Proofs.LowerCase

/-! What words mean, said of the word as it is written. Lower case matters for
the names of days only: a time is read from a word as from its lower case, for
digits, hyphens, colons and plus signs have no case and no letter becomes one. -/

namespace WeeklyAgenda

open Line Pieces Lowercase

/-! ### Numerals and times in either case -/

namespace Numeral

theorem isSign_of_isDigit {c : Char} (h : isDigit c = true) : isSign c = true := by
  have hcode : ∀ n < 0x80, isDigit (Char.ofNat n) = true → isSign (Char.ofNat n) = true := by
    decide +kernel
  have hlt : c.toNat < 0x80 := by
    simp only [isDigit, Bool.and_eq_true, decide_eq_true_eq, Char.le_def,
      UInt32.le_iff_toNat_le] at h
    exact Nat.lt_of_le_of_lt h.2 (by decide)
  have := hcode c.toNat hlt
  rw [Char.ofNat_toNat] at this
  exact this h

theorem ne_of_isDigit {c s : Char} (hc : isDigit c = true) (hs : isDigit s = false) :
    (c == s) = false := by
  rw [beq_eq_false_iff_ne]
  rintro rfl
  rw [hc] at hs
  cases hs

theorem mem_of_mem_unsigned {c : Char} {text : List Char} (h : c ∈ text) :
    c = '+' ∨ c ∈ unsigned text := by
  unfold unsigned
  split
  · exact List.mem_cons.mp h
  · exact .inr h

/-- A numeral is made of signs. -/
theorem isSign_of_read? {text : List Char} {n : Nat} (h : read? text = some n) :
    ∀ c ∈ text, isSign c = true := by
  intro c hc
  unfold read? at h
  dsimp only at h
  split at h
  · next hd =>
    rcases mem_of_mem_unsigned hc with rfl | hu
    · decide
    · exact isSign_of_isDigit (List.all_eq_true.mp hd.2.1 c hu)
  · cases h

end Numeral

section

variable {R : List Char → List Char → Prop} {s t : List Char}

/-- Texts are read as the same time if their parts correspond and corresponding
parts are alike as numerals. -/
theorem ClockTime.ofText?_congr
    (hdigit : ∀ {p q}, R p q → Numeral.startsWithDigit p = Numeral.startsWithDigit q)
    (hread : ∀ {p q}, R p q → Numeral.read? p = Numeral.read? q)
    (hcolon : ':' ∈ s ↔ ':' ∈ t) (h : R s t)
    (hw : List.Forall₂ R (words (· == ':') s) (words (· == ':') t)) : ofText? s = ofText? t := by
  unfold ofText?
  by_cases hs : ':' ∈ s
  · rw [if_pos hs, if_pos (hcolon.mp hs)]
    generalize words (· == ':') s = ps at hw ⊢
    generalize words (· == ':') t = qs at hw ⊢
    match hw with
    | .nil => rfl
    | .cons _ .nil => rfl
    | .cons hp (.cons hq .nil) => simp only [hdigit hp, hread hp, hread hq]
    | .cons _ (.cons _ (.cons _ _)) => rfl
  · rw [if_neg hs, if_neg fun ht => hs (hcolon.mpr ht), hread h]

theorem TimeRange.ofWord?_congr (htime : ∀ {p q}, R p q → ClockTime.ofText? p = ClockTime.ofText? q)
    (hp : List.Forall₂ R (pieces (· == '-') s) (pieces (· == '-') t)) :
    ofWord? s = ofWord? t := by
  unfold ofWord?
  generalize pieces (· == '-') s = ps at hp ⊢
  generalize pieces (· == '-') t = qs at hp ⊢
  match hp with
  | .nil => rfl
  | .cons _ .nil => rfl
  | .cons hp (.cons hq .nil) => simp only [htime hp, htime hq]
  | .cons _ (.cons _ (.cons _ _)) => rfl

end

namespace Lowercase.Folds

variable {s t : List Char}

theorem startsWithDigit_eq (h : Folds s t) :
    Numeral.startsWithDigit s = Numeral.startsWithDigit t := by
  cases h with
  | nil => rfl
  | sign => rfl
  | @letter c image s t hc hne hfree _ =>
    have hdigit : ∀ {x}, isSign x = false → Numeral.isDigit x = false := fun {x} hx => by
      cases hd : Numeral.isDigit x with
      | true => rw [Numeral.isSign_of_isDigit hd] at hx; cases hx
      | false => rfl
    obtain ⟨x, image, rfl⟩ := List.exists_cons_of_ne_nil hne
    rw [Numeral.startsWithDigit, List.cons_append, Numeral.startsWithDigit, hdigit hc,
      hdigit (hfree x (by simp))]

theorem read?_eq (h : Folds s t) : Numeral.read? s = Numeral.read? t := by
  cases hs : Numeral.read? s with
  | some n => rw [← h.eq_of_left (Numeral.isSign_of_read? hs), hs]
  | none =>
    cases ht : Numeral.read? t with
    | some n => rw [← h.eq_of_right (Numeral.isSign_of_read? ht), hs] at ht; cases ht
    | none => rfl

theorem ofText?_eq (h : Folds s t) : ClockTime.ofText? s = ClockTime.ofText? t :=
  ClockTime.ofText?_congr startsWithDigit_eq read?_eq (h.mem_iff (by decide)) h
    (h.words (isSign_of_beq (by decide)))

theorem timeRange_eq (h : Folds s t) : TimeRange.ofWord? s = TimeRange.ofWord? t :=
  TimeRange.ofWord?_congr ofText?_eq (h.pieces (isSign_of_beq (by decide)))

end Lowercase.Folds

/-! ### Days -/

namespace Weekday

/-- The two abbreviations of a day. -/
def Named (d : Weekday) (name : List Char) : Prop :=
  name = d.english.toList ∨ name = d.vietnamese.toList

theorem ofAbbreviation?_eq_some_iff {name : List Char} {d : Weekday} :
    ofAbbreviation? name = some d ↔ d.Named name := by
  constructor
  · intro h
    have := List.find?_some h
    simp only [Bool.or_eq_true, beq_iff_eq] at this
    exact this.imp Eq.symm Eq.symm
  · rintro (rfl | rfl) <;> cases d <;> decide

theorem ofAbbreviation?_of_digit {c : Char} (h : Numeral.isDigit c = true) (rest : List Char) :
    ofAbbreviation? (c :: rest) = none := by
  rw [ofAbbreviation?, List.find?_eq_none]
  intro d _ hd
  simp only [Bool.or_eq_true, beq_iff_eq] at hd
  have hhead : d.english.toList.head? = some c ∨ d.vietnamese.toList.head? = some c :=
    hd.imp (fun e => by rw [e]; rfl) (fun e => by rw [e]; rfl)
  cases d <;> simp [english, vietnamese] at hhead <;> rcases hhead with rfl | rfl <;> cases h

end Weekday

/-- A word that starts with a digit is no day. -/
theorem DayRule.ofWord?_of_digit {word : List Char} (h : Numeral.startsWithDigit word = true) :
    ofWord? word = none := by
  cases word with
  | nil => cases h
  | cons c rest =>
    have hc : Numeral.isDigit c = true := h
    have hne : (c == '-') = false := Numeral.ne_of_isDigit hc (by decide)
    obtain ⟨part, others, hwords⟩ := @words_cons_free _ (· == '-') c hne rest
    rw [ofWord?, hwords]
    match others with
    | [] => simp only [Weekday.ofAbbreviation?_of_digit hc, Option.map_none]
    | [_] => simp only [Weekday.ofAbbreviation?_of_digit hc]
    | _ :: _ :: _ => rfl

theorem DayRule.ofWord?_eq_some_iff {word : Word} {r : DayRule} :
    DayRule.ofWord? word = some r ↔
      (∃ name d, words (· == '-') word = [name] ∧ Weekday.Named d name ∧ r = .on d) ∨
        ∃ first last a b, words (· == '-') word = [first, last] ∧ Weekday.Named a first ∧
          Weekday.Named b last ∧ r = .span a b := by
  simp only [← Weekday.ofAbbreviation?_eq_some_iff]
  constructor
  · intro h
    rw [ofWord?] at h
    split at h
    · next name hw =>
      obtain ⟨d, hd, rfl⟩ := Option.map_eq_some_iff.mp h
      exact .inl ⟨name, d, hw, hd, rfl⟩
    · next first last hw =>
      split at h
      · next a b ha hb =>
        cases h
        exact .inr ⟨first, last, a, b, hw, ha, hb, rfl⟩
      · cases h
    · cases h
  · rintro (⟨name, d, hw, hd, rfl⟩ | ⟨first, last, a, b, hw, ha, hb, rfl⟩)
    · rw [ofWord?, hw]
      simp only [hd, Option.map_some]
    · rw [ofWord?, hw]
      simp only [ha, hb]

/-! ### Times -/

theorem TimeRange.ofWord?_eq_some_iff {word : Word} {r : TimeRange} :
    TimeRange.ofWord? word = some r ↔
      ∃ first last, word = first ++ '-' :: last ∧ '-' ∉ first ∧ '-' ∉ last ∧
        ClockTime.ofText? first = some r.first ∧ ClockTime.ofText? last = some r.last := by
  constructor
  · intro h
    rw [ofWord?] at h
    split at h
    · next first last hp =>
      obtain ⟨s, hs, rfl, hf, hl⟩ := pieces_eq_pair_iff.mp hp
      obtain rfl := beq_iff_eq.mp hs
      split at h
      · next ha hb =>
        cases h
        exact ⟨first, last, rfl, free_beq.mp hf, free_beq.mp hl, ha, hb⟩
      · cases h
    · cases h
  · rintro ⟨first, last, rfl, hf, hl, ha, hb⟩
    have hp : pieces (· == '-') (first ++ '-' :: last) = [first, last] :=
      pieces_eq_pair_iff.mpr ⟨'-', beq_self_eq_true '-', rfl, free_beq.mpr hf, free_beq.mpr hl⟩
    rw [ofWord?, hp]
    simp only [ha, hb]

/-! ### Meanings -/

namespace Line.Meaning

theorem day?_eq_some_iff {meaning : Meaning} {r : DayRule} :
    meaning.day? = some r ↔ meaning = .day r := by
  cases meaning <;> simp [day?]

theorem time?_eq_some_iff {meaning : Meaning} {r : TimeRange} :
    meaning.time? = some r ↔ meaning = .time r := by
  cases meaning <;> simp [time?]

theorem day?_ofWord (word : Word) : (ofWord word).day? = DayRule.ofWord? (lower word) := by
  unfold ofWord ofLower
  split
  · next h =>
    rw [DayRule.ofWord?_of_digit h]
    cases TimeRange.ofWord? (lower word) <;> rfl
  · cases DayRule.ofWord? (lower word) <;> rfl

theorem time?_ofWord (word : Word) :
    (ofWord word).time? =
      if Numeral.startsWithDigit word then TimeRange.ofWord? word else none := by
  unfold ofWord ofLower
  rw [← (folds_lower word).startsWithDigit_eq, ← (folds_lower word).timeRange_eq]
  split
  · cases TimeRange.ofWord? word <;> rfl
  · cases DayRule.ofWord? (lower word) <;> rfl

end Line.Meaning

end WeeklyAgenda

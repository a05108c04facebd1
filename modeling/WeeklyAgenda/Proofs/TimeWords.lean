import WeeklyAgenda.Proofs.Meanings
import WeeklyAgenda.Proofs.Numerals

/-! The words that are time ranges, and the minutes they stand for. A range is two
times on both sides of its only hyphen; a time is an hour, or an hour and a minute
with colons between them. Reading a range in numbers of fixed width, with a check
wherever a number changes its width, gives the same minutes, and zeros in front of
a number change nothing. -/

namespace WeeklyAgenda

open Line Pieces

/-! ### Times as they are written -/

namespace ClockTime

/-- What stands for the minutes of an hour: a number below 60, or anything that is
no number of at most 31 bits, for none. -/
def IsMinute (text : List Char) (minute : Nat) : Prop :=
  (Numeral.DenotesSigned text minute ∧ minute ≤ 59) ∨
    (¬ ∃ n, Numeral.DenotesSigned text n ∧ n ≤ 2147483647) ∧ minute = 0

/-- The end of a range, and its minutes since midnight. Of the parts between colons
the empty ones do not count. -/
inductive IsEndpoint (text : List Char) : Nat → Prop
  | hour {hour : Nat} (colon : ':' ∉ text) (denotes : Numeral.DenotesSigned text hour)
      (le : hour ≤ 23) : IsEndpoint text (60 * hour)
  | hourMinute {hours minutes : List Char} {hour minute : Nat} (colon : ':' ∈ text)
      (parts : (text.splitOn ':').filter (fun part => part ≠ []) = [hours, minutes])
      (denotes : Numeral.Denotes hours hour) (le : hour ≤ 23) (isMinute : IsMinute minutes minute) :
      IsEndpoint text (60 * hour + minute)

theorem ofHourMinute?_eq_some_iff {hour minute : Nat} {t : ClockTime} :
    ofHourMinute? hour minute = some t ↔
      (hour ≤ 23 ∧ minute ≤ 59) ∧ t.minutes = 60 * hour + minute := by
  rw [ofHourMinute?]
  constructor
  · intro h
    split at h
    · next hlt =>
      cases h
      exact ⟨by omega, rfl⟩
    · cases h
  · rintro ⟨hle, ht⟩
    rw [dif_pos (by omega), Option.some.injEq]
    exact ClockTime.ext ht.symm

/-- Where no number can be read the minute is zero. -/
theorem isMinute_iff {text : List Char} {minute : Nat} :
    IsMinute text minute ↔ (Numeral.read? text).getD 0 = minute ∧ minute ≤ 59 := by
  constructor
  · rintro (⟨hd, hle⟩ | ⟨hno, rfl⟩)
    · rw [Numeral.read?_eq_some_iff.mpr ⟨hd, by omega⟩]
      exact ⟨rfl, hle⟩
    · have hnone : Numeral.read? text = none :=
        Option.eq_none_iff_forall_ne_some.mpr fun n hn =>
          hno ⟨n, Numeral.read?_eq_some_iff.mp hn⟩
      rw [hnone]
      exact ⟨rfl, by decide⟩
  · rintro ⟨hvalue, hle⟩
    cases h : Numeral.read? text with
    | none =>
      rw [h] at hvalue
      refine .inr ⟨?_, hvalue.symm⟩
      rintro ⟨n, hn⟩
      rw [Numeral.read?_eq_some_iff.mpr hn] at h
      cases h
    | some n =>
      rw [h] at hvalue
      obtain rfl : n = minute := hvalue
      exact .inl ⟨(Numeral.read?_eq_some_iff.mp h).1, hle⟩

theorem ofText?_eq_some_iff {text : List Char} {t : ClockTime} :
    ofText? text = some t ↔ IsEndpoint text t.minutes := by
  constructor
  · intro h
    unfold ofText? at h
    split at h
    · next hcolon =>
      split at h
      · next hours minutes hparts =>
        obtain ⟨hdigit, hread⟩ := Option.ite_none_right_eq_some.mp h
        obtain ⟨hour, hhour, htime⟩ := Option.bind_eq_some_iff.mp hread
        obtain ⟨⟨hle, hlt⟩, ht⟩ := ofHourMinute?_eq_some_iff.mp htime
        have hdenotes := Numeral.denotes_iff.mpr ⟨hdigit, (Numeral.read?_eq_some_iff.mp hhour).1⟩
        rw [ht]
        exact .hourMinute hcolon ((filter_splitOn ':' text).trans hparts) hdenotes hle
          (isMinute_iff.mpr ⟨rfl, hlt⟩)
      · cases h
    · next hcolon =>
      obtain ⟨hour, hhour, htime⟩ := Option.bind_eq_some_iff.mp h
      obtain ⟨⟨hle, -⟩, ht⟩ := ofHourMinute?_eq_some_iff.mp htime
      rw [ht]
      exact .hour hcolon (Numeral.read?_eq_some_iff.mp hhour).1 hle
  · intro h
    generalize hm : t.minutes = m at h
    cases h with
    | hour colon denotes le =>
      rw [ofText?, if_neg colon, Numeral.read?_eq_some_iff.mpr ⟨denotes, by omega⟩]
      exact ofHourMinute?_eq_some_iff.mpr ⟨⟨le, by decide⟩, hm⟩
    | hourMinute colon parts denotes le isMinute =>
      obtain ⟨hdigit, hsigned⟩ := Numeral.denotes_iff.mp denotes
      obtain ⟨rfl, hle⟩ := isMinute_iff.mp isMinute
      rw [filter_splitOn] at parts
      rw [ofText?, if_pos colon, parts]
      simp only [hdigit, if_true, Numeral.read?_eq_some_iff.mpr ⟨hsigned, by omega⟩,
        Option.bind_some]
      exact ofHourMinute?_eq_some_iff.mpr ⟨⟨le, hle⟩, hm⟩

end ClockTime

/-! ### Fixed width -/

namespace FixedWidth

def byte? (n : Int32) : Option UInt8 :=
  if 0 ≤ n.toInt ∧ n.toInt ≤ 255 then some (.ofNat n.toInt.toNat) else none

def minuteOfDay? (hour minute : UInt8) : Option UInt16 :=
  if 23 < hour ∨ 59 < minute then none else some (60 * hour.toUInt16 + minute.toUInt16)

def ofHourMinute? (hour minute : Int32) : Option UInt16 := do
  minuteOfDay? (← byte? hour) (← byte? minute)

/-- Minutes since midnight in 16 bits. -/
def ofText? (text : List Char) : Option UInt16 :=
  if ':' ∈ text then
    match words (· == ':') text with
    | [hour, minute] => do
      guard (Numeral.startsWithDigit hour)
      ofHourMinute? (← Numeral.readWord? hour) ((Numeral.readWord? minute).getD 0)
    | _ => none
  else do ofHourMinute? (← Numeral.readWord? text) 0

/-- Both ends of a range. -/
def ofWord? (word : Word) : Option (UInt16 × UInt16) :=
  match pieces (· == '-') word with
  | [first, last] => do return (← ofText? first, ← ofText? last)
  | _ => none

theorem byte?_ofNat {n : Nat} (h : n ≤ Numeral.bound) :
    byte? (.ofNat n) = if n ≤ 255 then some (.ofNat n) else none := by
  rw [byte?, Numeral.toInt_ofNat h, Int.toNat_natCast]
  by_cases hle : n ≤ 255
  · rw [if_pos (by omega), if_pos hle]
  · rw [if_neg (by omega), if_neg hle]

theorem minuteOfDay?_ofNat {hour minute : Nat} (hh : hour ≤ 255) (hm : minute ≤ 255) :
    (minuteOfDay? (.ofNat hour) (.ofNat minute)).map UInt16.toNat =
      (ClockTime.ofHourMinute? hour minute).map ClockTime.minutes := by
  have hhour : (UInt8.ofNat hour).toNat = hour := Nat.mod_eq_of_lt (by omega)
  have hminute : (UInt8.ofNat minute).toNat = minute := Nat.mod_eq_of_lt (by omega)
  have hover : 23 < UInt8.ofNat hour ∨ 59 < UInt8.ofNat minute ↔ 23 < hour ∨ 59 < minute := by
    rw [UInt8.lt_iff_toNat_lt, UInt8.lt_iff_toNat_lt, hhour, hminute]
    rfl
  by_cases hlt : hour < 24 ∧ minute < 60
  · have hsum : (60 * (UInt8.ofNat hour).toUInt16 + (UInt8.ofNat minute).toUInt16).toNat =
        60 * hour + minute := by
      rw [UInt16.toNat_add, UInt16.toNat_mul, UInt8.toNat_toUInt16, UInt8.toNat_toUInt16, hhour,
        hminute]
      change (60 * hour % 65536 + minute) % 65536 = _
      omega
    rw [minuteOfDay?, if_neg fun h => by have := hover.mp h; omega, ClockTime.ofHourMinute?,
      dif_pos hlt, Option.map_some, hsum]
    rfl
  · rw [minuteOfDay?, if_pos (hover.mpr (by omega)), ClockTime.ofHourMinute?, dif_neg hlt]
    rfl

/-- A number that does not fit a byte is no hour and no minute. -/
theorem ofHourMinute?_ofNat {hour minute : Nat} (hh : hour ≤ Numeral.bound)
    (hm : minute ≤ Numeral.bound) :
    (ofHourMinute? (.ofNat hour) (.ofNat minute)).map UInt16.toNat =
      (ClockTime.ofHourMinute? hour minute).map ClockTime.minutes := by
  rw [ofHourMinute?, byte?_ofNat hh, byte?_ofNat hm]
  by_cases hhour : hour ≤ 255
  · by_cases hminute : minute ≤ 255
    · rw [if_pos hhour, if_pos hminute, ← minuteOfDay?_ofNat hhour hminute]
      rfl
    · rw [if_pos hhour, if_neg hminute, ClockTime.ofHourMinute?, dif_neg (by omega)]
      rfl
  · rw [if_neg hhour, ClockTime.ofHourMinute?, dif_neg (by omega)]
    rfl

theorem readWord?_bind {hour : List Char} (h : '-' ∉ hour) {minute : Nat}
    (hm : minute ≤ Numeral.bound) :
    ((Numeral.readWord? hour).bind fun n => ofHourMinute? n (.ofNat minute)).map UInt16.toNat =
      ((Numeral.read? hour).bind fun n => ClockTime.ofHourMinute? n minute).map
        ClockTime.minutes := by
  rw [Numeral.readWord?_eq h]
  cases hr : Numeral.read? hour with
  | none => rfl
  | some n => exact ofHourMinute?_ofNat (Numeral.read?_eq_some_iff.mp hr).2 hm

theorem readWord?_getD {minute : List Char} (h : '-' ∉ minute) :
    (Numeral.readWord? minute).getD 0 = .ofNat ((Numeral.read? minute).getD 0) ∧
      (Numeral.read? minute).getD 0 ≤ Numeral.bound := by
  rw [Numeral.readWord?_eq h]
  cases hr : Numeral.read? minute with
  | none => exact ⟨rfl, by decide⟩
  | some n => exact ⟨rfl, (Numeral.read?_eq_some_iff.mp hr).2⟩

theorem ofText?_eq {text : List Char} (h : '-' ∉ text) :
    (ofText? text).map UInt16.toNat = (ClockTime.ofText? text).map ClockTime.minutes := by
  unfold ofText? ClockTime.ofText?
  by_cases hcolon : ':' ∈ text
  · rw [if_pos hcolon, if_pos hcolon]
    have hyphen : ∀ part ∈ words (· == ':') text, '-' ∉ part :=
      fun part hp hm => h (mem_of_mem_words hp hm)
    generalize words (· == ':') text = parts at hyphen ⊢
    match parts with
    | [] => rfl
    | [_] => rfl
    | [hour, minute] =>
      obtain ⟨hminute, hle⟩ := readWord?_getD (hyphen minute (by simp))
      have hbind := readWord?_bind (hyphen hour (by simp)) hle
      dsimp only
      rw [hminute]
      cases Numeral.startsWithDigit hour with
      | true => exact hbind
      | false => rfl
    | _ :: _ :: _ :: _ => rfl
  · rw [if_neg hcolon, if_neg hcolon]
    exact @readWord?_bind text h 0 (by decide)

/-- No number is wrapped or cut off on its way into 16 bits, and each range that can
be read fits. -/
theorem ofWord?_eq (word : Word) :
    (ofWord? word).map (fun r => (r.1.toNat, r.2.toNat)) =
      (TimeRange.ofWord? word).map fun r => (r.first.minutes, r.last.minutes) := by
  unfold ofWord? TimeRange.ofWord?
  rcases hp : pieces (· == '-') word with _ | ⟨first, _ | ⟨last, _ | ⟨_, _⟩⟩⟩
  · rfl
  · rfl
  · obtain ⟨s, hs, -, hfirst, hlast⟩ := pieces_eq_pair_iff.mp hp
    obtain rfl := beq_iff_eq.mp hs
    have hf := ofText?_eq (free_beq.mp hfirst)
    have hl := ofText?_eq (free_beq.mp hlast)
    dsimp only
    calc _ = ((ofText? first).map UInt16.toNat).bind fun s =>
              ((ofText? last).map UInt16.toNat).map fun e => (s, e) := by
            cases ofText? first <;> cases ofText? last <;> rfl
      _ = ((ClockTime.ofText? first).map ClockTime.minutes).bind fun s =>
              ((ClockTime.ofText? last).map ClockTime.minutes).map fun e => (s, e) := by
            rw [hf, hl]
      _ = _ := by cases ClockTime.ofText? first <;> cases ClockTime.ofText? last <;> rfl
  · rfl

end FixedWidth

/-! ### Zeros in front -/

namespace Numeral.Padded

variable {s t : List Char}

theorem ofText?_eq (h : Padded s t) : ClockTime.ofText? s = ClockTime.ofText? t :=
  ClockTime.ofText?_congr startsWithDigit_eq read?_eq (h.mem_iff (by decide)) h
    (h.words fun _ hc => ne_of_isDigit hc (by decide))

theorem timeRange_eq (h : Padded s t) : TimeRange.ofWord? s = TimeRange.ofWord? t :=
  TimeRange.ofWord?_congr ofText?_eq (h.pieces fun _ hc => ne_of_isDigit hc (by decide))

theorem time?_eq (h : Padded s t) : (Meaning.ofWord s).time? = (Meaning.ofWord t).time? := by
  rw [Meaning.time?_ofWord, Meaning.time?_ofWord, h.startsWithDigit_eq, h.timeRange_eq]

end Numeral.Padded

/-! ### Ranges -/

/-- Two ends on both sides of a hyphen, the only one, in the order of the range. -/
def Line.Word.IsTimeRange (word : Word) (r : TimeRange) : Prop :=
  ∃ first last, word = first ++ '-' :: last ∧ '-' ∉ first ∧ '-' ∉ last ∧
    ClockTime.IsEndpoint first r.first.minutes ∧ ClockTime.IsEndpoint last r.last.minutes

/-- A word is read as the range that its ends stand for, and has no other range. As
a word of a clause it has to start with a digit. Numbers of fixed width come to the
same minutes, and zeros may stand in front of any number. -/
theorem TimeRange.ofWord?_reads_endpoints (word : Word) (r : TimeRange) :
    (ofWord? word = some r ↔ word.IsTimeRange r) ∧
    (Meaning.ofWord word = .time r ↔
      Numeral.startsWithDigit word = true ∧ word.IsTimeRange r) ∧
    (FixedWidth.ofWord? word).map (fun ends => (ends.1.toNat, ends.2.toNat)) =
      (ofWord? word).map (fun r => (r.first.minutes, r.last.minutes)) ∧
    ∀ padded, Numeral.Padded padded word → ofWord? padded = ofWord? word ∧
      (Meaning.ofWord padded).time? = (Meaning.ofWord word).time? := by
  have hrange : ofWord? word = some r ↔ word.IsTimeRange r := by
    simp only [ofWord?_eq_some_iff, ClockTime.ofText?_eq_some_iff, Word.IsTimeRange]
  refine ⟨hrange, ?_, FixedWidth.ofWord?_eq word, fun padded h => ⟨h.timeRange_eq, h.time?_eq⟩⟩
  rw [← Meaning.time?_eq_some_iff, Meaning.time?_ofWord, Option.ite_none_right_eq_some, hrange]

-- The minute of the first end has a sign, the second end is an hour with a sign.
theorem TimeRange.ofWord?_reads_endpoints_padded :
    Numeral.Padded "9:+0005-+17".toList "9:+5-+17".toList ∧
      ofWord? "9:+0005-+17".toList =
        some ⟨⟨545, by decide⟩, ⟨1020, by decide⟩⟩ := by
  have hpadded : Numeral.Padded "9:+0005-+17".toList "9:+5-+17".toList :=
    @Numeral.Padded.zeros "9:+".toList 3 '5' "-+17".toList (by decide) (by decide)
  have h := (ofWord?_reads_endpoints "9:+5-+17".toList
    ⟨⟨545, by decide⟩, ⟨1020, by decide⟩⟩).2.2.2 _ hpadded
  exact ⟨hpadded, h.1.trans (by decide)⟩

end WeeklyAgenda

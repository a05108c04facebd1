import Mathlib.Tactic.IntervalCases
import WeeklyAgenda.Calendar
import WeeklyAgenda.Proofs.ActiveLines
import WeeklyAgenda.Proofs.TimeWords

/-! Dates in the order of the calendar, and the days of the week that go with them. The
number of a day grows with its date and by one from each date to the next, through the
ends of months and years, so that the days of the week follow each other without a gap
and are the same a whole number of weeks later. -/

namespace WeeklyAgenda

open Calendar

/-! ### Months and years -/

namespace Calendar

theorem one_le_monthLength (year : Int) {month : Nat} (h : 1 ≤ month ∧ month ≤ 12) :
    1 ≤ monthLength year month := by
  obtain ⟨hone, hle⟩ := h
  interval_cases month
  case «2» =>
    rw [monthLength]
    split <;> decide
  all_goals simp [monthLength]

/-- A month ends no later than a later one starts. -/
theorem daysBeforeMonth_add_le (year : Int) {m n : Nat} (h : m < n) :
    daysBeforeMonth year m + monthLength year m ≤ daysBeforeMonth year n := by
  induction n, h using Nat.le_induction with
  | base => exact Nat.le_refl _
  | succ n _ ih => exact Nat.le_trans ih (Nat.le_add_right _ _)

theorem daysBeforeMonth_thirteen (year : Int) :
    daysBeforeMonth year 13 = if isLeap year then 366 else 365 := by
  simp only [daysBeforeMonth, monthLength]
  split <;> rfl

/-- A year is as long as its months together, with its own leap day. -/
theorem daysBeforeYear_succ (year : Int) :
    daysBeforeYear (year + 1) = daysBeforeYear year + daysBeforeMonth year 13 := by
  rw [daysBeforeMonth_thirteen, daysBeforeYear, daysBeforeYear]
  by_cases h : isLeap year = true
  · rw [if_pos h]
    simp only [isLeap, Bool.and_eq_true, Bool.or_eq_true, beq_iff_eq, bne_iff_ne] at h
    omega
  · rw [if_neg h]
    simp only [isLeap, Bool.and_eq_true, Bool.or_eq_true, beq_iff_eq, bne_iff_ne] at h
    omega

/-- A year ends no later than a later one starts. -/
theorem daysBeforeYear_succ_le {y z : Int} (h : y < z) :
    daysBeforeYear (y + 1) ≤ daysBeforeYear z := by
  induction z, h using Int.leInduction with
  | base => exact Int.le_refl _
  | succ z _ ih =>
    rw [daysBeforeYear_succ z]
    omega

end Calendar

/-! ### The order of dates -/

namespace Date

variable {d e : Date}

@[ext]
theorem ext (hy : d.year = e.year) (hm : d.month = e.month) (hd : d.day = e.day) : d = e := by
  cases d
  cases e
  cases hy
  cases hm
  cases hd
  rfl

/-- By years, then by months, then by days. -/
def Before (d e : Date) : Prop :=
  d.year < e.year ∨ d.year = e.year ∧ (d.month < e.month ∨ d.month = e.month ∧ d.day < e.day)

theorem before_or_eq_or_before (d e : Date) : d.Before e ∨ d = e ∨ e.Before d := by
  rw [Date.ext_iff, Before, Before]
  omega

theorem daysBeforeYear_le (d : Date) : daysBeforeYear d.year ≤ d.dayNumber := by
  have := d.day_mem
  rw [dayNumber]
  omega

/-- No day is counted to a later year than its own. -/
theorem dayNumber_lt (d : Date) : d.dayNumber < daysBeforeYear (d.year + 1) := by
  have hlt : d.month < 13 := Nat.lt_succ_of_le d.month_mem.2
  have hmonth := daysBeforeMonth_add_le d.year hlt
  have hday := d.day_mem
  rw [daysBeforeYear_succ, dayNumber]
  omega

theorem dayNumber_lt_of_before (h : d.Before e) : d.dayNumber < e.dayNumber := by
  rcases h with hy | ⟨hy, hm | ⟨hm, hd⟩⟩
  -- whole years lie between the two, whole months, or days alone
  · calc d.dayNumber
      _ < daysBeforeYear (d.year + 1) := d.dayNumber_lt
      _ ≤ daysBeforeYear e.year := daysBeforeYear_succ_le hy
      _ ≤ e.dayNumber := e.daysBeforeYear_le
  · have hmonth := daysBeforeMonth_add_le d.year hm
    have hday := d.day_mem
    have hday' := e.day_mem
    rw [dayNumber, dayNumber, ← hy]
    omega
  · rw [dayNumber, dayNumber, ← hy, ← hm]
    omega

theorem before_iff : d.Before e ↔ d.dayNumber < e.dayNumber := by
  refine ⟨dayNumber_lt_of_before, fun hlt => ?_⟩
  rcases before_or_eq_or_before d e with h | rfl | h
  · exact h
  · exact absurd hlt (Int.lt_irrefl _)
  · exact absurd (dayNumber_lt_of_before h) (Int.lt_asymm hlt)

theorem dayNumber_inj : d.dayNumber = e.dayNumber ↔ d = e := by
  refine ⟨fun heq => ?_, fun h => h ▸ rfl⟩
  rcases before_or_eq_or_before d e with h | h | h
  · exact absurd heq (Int.ne_of_lt (dayNumber_lt_of_before h))
  · exact h
  · exact absurd heq.symm (Int.ne_of_lt (dayNumber_lt_of_before h))

/-- The date with which the supported years end. -/
def last : Date := ⟨lastYear, 12, 31, by decide, by decide, by decide⟩

theorem not_last_before (d : Date) : ¬ Before last d := by
  have hyear := d.year_mem
  have hmonth := d.month_mem
  rintro (hy | ⟨hy, hm | ⟨hm, hd⟩⟩)
  · exact absurd hy (Int.not_lt.mpr hyear.2)
  · exact absurd hm (Nat.not_lt.mpr hmonth.2)
  · have hday := d.day_mem
    rw [← hm] at hday
    exact absurd hd (Nat.not_lt.mpr hday.2)

theorem before_last_of_before (h : d.Before e) : d.Before last := by
  rcases before_or_eq_or_before d last with hlt | rfl | hlt
  · exact hlt
  · exact absurd h (not_last_before e)
  · exact absurd hlt (not_last_before d)

/-! ### The next date -/

theorem ofYearMonthDay?_eq_some_iff {year : Int} {month day : Nat} :
    ofYearMonthDay? year month day = some d ↔ d.year = year ∧ d.month = month ∧ d.day = day := by
  constructor
  · intro h
    rw [ofYearMonthDay?] at h
    split at h
    · cases h
      exact ⟨rfl, rfl, rfl⟩
    · cases h
  · rintro ⟨rfl, rfl, rfl⟩
    exact dif_pos ⟨d.year_mem, d.month_mem, d.day_mem⟩

theorem exists_ofYearMonthDay? {year : Int} {month day : Nat}
    (hy : firstYear ≤ year ∧ year ≤ lastYear) (hm : 1 ≤ month ∧ month ≤ 12)
    (hd : 1 ≤ day ∧ day ≤ monthLength year month) :
    ∃ d, ofYearMonthDay? year month day = some d :=
  ⟨_, dif_pos ⟨hy, hm, hd⟩⟩

/-- The next date is a day, the start of a month or the start of a year further. -/
theorem next?_cases (h : d.next? = some e) :
    (e.year = d.year ∧ e.month = d.month ∧ e.day = d.day + 1) ∨
    (e.year = d.year ∧ e.month = d.month + 1 ∧ e.day = 1 ∧ d.day = monthLength d.year d.month) ∨
    (e.year = d.year + 1 ∧ e.month = 1 ∧ e.day = 1 ∧ d.month = 12 ∧
      d.day = monthLength d.year d.month) := by
  have hmonth := d.month_mem
  have hday := d.day_mem
  rw [next?] at h
  split at h
  · exact .inl (ofYearMonthDay?_eq_some_iff.mp h)
  · split at h
    · obtain ⟨hy, hm, hd⟩ := ofYearMonthDay?_eq_some_iff.mp h
      exact .inr (.inl ⟨hy, hm, hd, by omega⟩)
    · obtain ⟨hy, hm, hd⟩ := ofYearMonthDay?_eq_some_iff.mp h
      exact .inr (.inr ⟨hy, hm, hd, by omega, by omega⟩)

theorem dayNumber_next? (h : d.next? = some e) : e.dayNumber = d.dayNumber + 1 := by
  rcases next?_cases h with ⟨hy, hm, hd⟩ | ⟨hy, hm, hd, hend⟩ | ⟨hy, hm, hd, hlast, hend⟩
  · rw [dayNumber, dayNumber, hy, hm, hd]
    omega
  · rw [dayNumber, dayNumber, hy, hm, hd, hend, daysBeforeMonth]
    omega
  · have hyear : daysBeforeMonth d.year 13 =
        daysBeforeMonth d.year 12 + monthLength d.year 12 := rfl
    have hfirst : daysBeforeMonth (d.year + 1) 1 = 0 := rfl
    rw [dayNumber, dayNumber, hy, hm, hd, hend, hlast, daysBeforeYear_succ, hyear, hfirst]
    omega

/-- There is a next date before the last one. -/
theorem exists_next? (h : d.Before last) : ∃ e, d.next? = some e := by
  have hyear := d.year_mem
  have hmonth := d.month_mem
  have hday := d.day_mem
  rw [next?]
  split
  · next hlt => exact exists_ofYearMonthDay? hyear hmonth ⟨by omega, hlt⟩
  · next hlt =>
    split
    · next hlt' =>
      have hnext : 1 ≤ d.month + 1 ∧ d.month + 1 ≤ 12 := by omega
      exact exists_ofYearMonthDay? hyear hnext ⟨Nat.le_refl 1, one_le_monthLength d.year hnext⟩
    · next hlt' =>
      have hyear' : d.year < lastYear := by
        have hlast : d.month = 12 := by omega
        rcases h with hy | ⟨hy, hm | ⟨hm, hd⟩⟩
        · exact hy
        · exact absurd hm hlt'
        · rw [hlast] at hlt
          exact absurd hd hlt
      have hyears : firstYear ≤ d.year + 1 ∧ d.year + 1 ≤ lastYear := by omega
      exact exists_ofYearMonthDay? hyears (by decide)
        ⟨Nat.le_refl 1, one_le_monthLength _ (by decide)⟩

theorem next?_eq_none_iff : d.next? = none ↔ d = last := by
  constructor
  · intro h
    rcases before_or_eq_or_before d last with hlt | heq | hlt
    · obtain ⟨e, he⟩ := exists_next? hlt
      rw [h] at he
      cases he
    · exact heq
    · exact absurd hlt (not_last_before d)
  · rintro rfl
    rfl

theorem next?_eq_some_iff : d.next? = some e ↔ e.dayNumber = d.dayNumber + 1 := by
  refine ⟨dayNumber_next?, fun heq => ?_⟩
  cases h : d.next? with
  | none =>
    rw [next?_eq_none_iff.mp h] at heq
    exact absurd (before_iff.mpr (by omega)) (not_last_before e)
  | some c => rw [dayNumber_inj.mp ((dayNumber_next? h).trans heq.symm)]

/-- The next date is the first of those that come later. -/
theorem next?_eq_some_iff_first :
    d.next? = some e ↔ d.Before e ∧ ∀ c, d.Before c → c = e ∨ e.Before c := by
  rw [next?_eq_some_iff]
  simp only [before_iff, ← dayNumber_inj]
  constructor
  · intro heq
    exact ⟨by omega, fun c hc => by omega⟩
  · rintro ⟨hlt, hfirst⟩
    obtain ⟨c, hc⟩ := exists_next? (before_last_of_before (before_iff.mpr hlt))
    have hnext := dayNumber_next? hc
    have := hfirst c (by omega)
    omega

/-! ### Days later -/

/-- The date that lies a number of days later, unless the supported years end. -/
def after? : Nat → Date → Option Date
  | 0, d => some d
  | n + 1, d => d.next?.bind (after? n)

/-- The days that pass between two dates are counted by their numbers. -/
theorem after?_eq_some_iff {n : Nat} : after? n d = some e ↔ e.dayNumber = d.dayNumber + n := by
  induction n generalizing d with
  | zero =>
    rw [after?, Option.some.injEq, ← dayNumber_inj]
    omega
  | succ n ih =>
    rw [after?, Option.bind_eq_some_iff]
    constructor
    · rintro ⟨c, hc, he⟩
      have hnext := dayNumber_next? hc
      have hrest := ih.mp he
      omega
    · intro heq
      -- the calendar goes on behind the first date since the second is in it
      have hlt : d.Before e := before_iff.mpr (by omega)
      obtain ⟨c, hc⟩ := exists_next? (before_last_of_before hlt)
      have hnext := dayNumber_next? hc
      exact ⟨c, hc, ih.mpr (by omega)⟩

/-! ### Days of the week -/

theorem index_weekday (d : Date) : (d.weekday.index : Int) = (d.dayNumber + 6) % 7 := by
  rw [weekday, Weekday.index_ofIndex]
  have hindex : (Weekday.sat.index : Int) = 6 := rfl
  rw [hindex]
  omega

theorem weekday_next? (h : d.next? = some e) : e.weekday = d.weekday.next := by
  have hnumber := dayNumber_next? h
  have hd := d.index_weekday
  have he := e.index_weekday
  refine Weekday.index_inj ?_
  rw [Weekday.next, Weekday.index_ofIndex]
  omega

/-- The days of the week of a row of dates follow each other. -/
theorem weekday_after? {n : Nat} (h : after? n d = some e) :
    e.weekday = .ofIndex (d.weekday.index + n) := by
  induction n generalizing d with
  | zero =>
    cases h
    exact (Weekday.ofIndex_index _).symm
  | succ n ih =>
    obtain ⟨c, hc, he⟩ := Option.bind_eq_some_iff.mp h
    refine Weekday.index_inj ?_
    rw [ih he, weekday_next? hc, Weekday.next, Weekday.index_ofIndex, Weekday.index_ofIndex,
      Weekday.index_ofIndex]
    omega

/-- One date lies a whole number of weeks behind the other. -/
def WeeksApart (d e : Date) : Prop :=
  ∃ weeks, after? (7 * weeks) d = some e ∨ after? (7 * weeks) e = some d

theorem weekday_of_weeks {weeks : Nat} (h : after? (7 * weeks) d = some e) :
    e.weekday = d.weekday := by
  refine Weekday.index_inj ?_
  rw [weekday_after? h, Weekday.index_ofIndex, Nat.add_mul_mod_self_left,
    Nat.mod_eq_of_lt d.weekday.index_lt]

theorem WeeksApart.weekday_eq (h : d.WeeksApart e) : e.weekday = d.weekday := by
  obtain ⟨weeks, h | h⟩ := h
  · exact weekday_of_weeks h
  · exact (weekday_of_weeks h).symm

end Date

/-! ### Times of day -/

namespace FixedWidth

def byteOfUnsigned? (n : UInt32) : Option UInt8 :=
  if n ≤ 255 then some n.toUInt8 else none

/-- Hour and minute come in 32 bits, and each has to fit a byte. -/
def ofTimeOfDay? (t : TimeOfDay) : Option UInt16 := do
  minuteOfDay? (← byteOfUnsigned? (.ofNat t.hour)) (← byteOfUnsigned? (.ofNat t.minute))

theorem byteOfUnsigned?_ofNat {n : Nat} (h : n ≤ 255) :
    byteOfUnsigned? (.ofNat n) = some (.ofNat n) := by
  have hn : (UInt32.ofNat n).toNat = n := Nat.mod_eq_of_lt (by omega)
  have hbyte : (UInt32.ofNat n).toUInt8 = .ofNat n := by
    rw [← UInt8.toNat_inj, UInt32.toNat_toUInt8, hn]
    rfl
  have hle : UInt32.ofNat n ≤ 255 := by
    rw [UInt32.le_iff_toNat_le, hn]
    exact h
  rw [byteOfUnsigned?, if_pos hle, hbyte]

/-- No time of day fails a check, and none is wrapped or cut off. -/
theorem ofTimeOfDay?_eq (t : TimeOfDay) :
    (ofTimeOfDay? t).map UInt16.toNat = some (60 * t.hour + t.minute) := by
  have hh := t.hour_lt
  have hm := t.minute_lt
  rw [ofTimeOfDay?, byteOfUnsigned?_ofNat (by omega), byteOfUnsigned?_ofNat (by omega)]
  calc _ = (ClockTime.ofHourMinute? t.hour t.minute).map ClockTime.minutes :=
        minuteOfDay?_ofNat (by omega) (by omega)
    _ = _ := by rw [t.ofHourMinute?_eq_clockTime]; rfl

end FixedWidth

/-! ### Moments -/

namespace DateTime

/-- The moment of a date-time, with a check of each number that goes into it. -/
def checkedMoment? (t : DateTime) : Option Moment := do
  let minutes ← FixedWidth.ofTimeOfDay? t.time
  return ⟨t.date.weekday, ← ClockTime.ofMinutes? minutes.toNat⟩

theorem checkedMoment?_eq (t : DateTime) : t.checkedMoment? = some t.moment := by
  obtain ⟨minutes, hsome, hminutes⟩ :=
    Option.map_eq_some_iff.mp (FixedWidth.ofTimeOfDay?_eq t.time)
  have hread : ClockTime.ofMinutes? minutes.toNat = some t.time.clockTime := by
    rw [hminutes]
    exact ClockTime.ofMinutes?_minutes t.time.clockTime
  rw [checkedMoment?, hsome, Option.bind_eq_bind, Option.bind_some, hread]
  rfl

theorem moment_eq_of_weeksApart {t u : DateTime} (hdate : t.date.WeeksApart u.date)
    (hhour : u.time.hour = t.time.hour) (hminute : u.time.minute = t.time.minute) :
    u.moment = t.moment := by
  rw [moment, moment, hdate.weekday_eq, TimeOfDay.clockTime, TimeOfDay.clockTime]
  simp only [hhour, hminute]

/-- Each date-time has a moment, which no check refuses, and its minute is that of the hour
and the minute, whatever the seconds, and within a leap second too. The next date, which
is the first of the later ones and missing only at the end of the supported years, has the
next day of the week at the same time of day; the first of January 2024 is a Monday. So all
agendas show the same at the same hour and minute a whole number of weeks apart. -/
theorem moment_follows_week (t : DateTime) :
    t.checkedMoment? = some t.moment ∧
    t.moment.time.minutes = 60 * t.time.hour + t.time.minute ∧
    (t.date.next? = none ↔ t.date = .last) ∧
    (∀ d, t.date.next? = some d ↔
      t.date.Before d ∧ ∀ c, t.date.Before c → c = d ∨ d.Before c) ∧
    (∀ d, t.date.next? = some d →
      moment ⟨d, t.time⟩ = ⟨t.moment.day.next, t.moment.time⟩) ∧
    (Date.ofYearMonthDay? 2024 1 1).map Date.weekday = some .mon ∧
    ∀ u : DateTime, t.date.WeeksApart u.date → u.time.hour = t.time.hour →
      u.time.minute = t.time.minute → ∀ a : Agenda, a.activeAt u.moment = a.activeAt t.moment := by
  refine ⟨t.checkedMoment?_eq, rfl, Date.next?_eq_none_iff, fun d => Date.next?_eq_some_iff_first,
    fun d h => ?nextDay, by decide, fun u hdate hhour hminute a => ?weeksApart⟩
  case nextDay => rw [moment, Date.weekday_next? h]; rfl
  case weeksApart => rw [moment_eq_of_weeksApart hdate hhour hminute]

-- The leap day of year 0, within a leap second in the middle of a minute, the day behind it,
-- and 52 weeks later, within one at the end of that minute.
theorem moment_follows_week_leapDay :
    ∃ t u : DateTime, Date.ofYearMonthDay? 0 2 29 = some t.date ∧
      (t.time.hour = 23 ∧ t.time.minute = 59 ∧ t.time.second = 4 ∧ t.time.nano = 1333333333) ∧
      t.checkedMoment? = some ⟨.tue, .last⟩ ∧
      (∃ d, Date.ofYearMonthDay? 0 3 1 = some d ∧ t.date.next? = some d ∧
        moment ⟨d, t.time⟩ = ⟨.wed, .last⟩) ∧
      Date.ofYearMonthDay? 1 2 27 = some u.date ∧
      TimeOfDay.ofParts? 23 59 59 1500000000 = some u.time ∧
      t.date.WeeksApart u.date ∧
      ∀ a : Agenda, a.activeAt u.moment = a.activeAt t.moment := by
  let t : DateTime := ⟨⟨0, 2, 29, by decide, by decide, by decide⟩,
    ⟨23, 59, 4, 1333333333, by decide, by decide, by decide, by decide⟩⟩
  let u : DateTime := ⟨⟨1, 2, 27, by decide, by decide, by decide⟩,
    ⟨23, 59, 59, 1500000000, by decide, by decide, by decide, by decide⟩⟩
  let d : Date := ⟨0, 3, 1, by decide, by decide, by decide⟩
  have ht : t.moment = ⟨.tue, .last⟩ := by decide
  have hnext : t.date.next? = some d := by decide
  have hweeks : t.date.WeeksApart u.date := ⟨52, .inl (Date.after?_eq_some_iff.mpr (by decide))⟩
  obtain ⟨hmoment, -, -, -, hday, -, hsame⟩ := moment_follows_week t
  have hnextDay := hday d hnext
  rw [ht] at hmoment hnextDay
  exact ⟨t, u, rfl, ⟨rfl, rfl, rfl, rfl⟩, hmoment, ⟨d, rfl, hnext, hnextDay⟩, rfl, rfl, hweeks,
    hsame u hweeks rfl rfl⟩

end DateTime

end WeeklyAgenda

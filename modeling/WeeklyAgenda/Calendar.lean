import WeeklyAgenda.Moment

/-! Dates of the Gregorian calendar, carried back before its introduction and
with a year 0, and times of day to the nanosecond. Days are numbered from the
first of January of year 0, a Saturday, which gives each date its weekday. -/

namespace WeeklyAgenda

namespace Calendar

def isLeap (year : Int) : Bool :=
  year % 4 == 0 && (year % 100 != 0 || year % 400 == 0)

/-- Days in a month, none if there is no such month. -/
def monthLength (year : Int) : Nat → Nat
  | 1 | 3 | 5 | 7 | 8 | 10 | 12 => 31
  | 4 | 6 | 9 | 11 => 30
  | 2 => if isLeap year then 29 else 28
  | _ => 0

/-- Days of the year that lie before a month. -/
def daysBeforeMonth (year : Int) : Nat → Nat
  | 0 => 0
  | month + 1 => daysBeforeMonth year month + monthLength year month

/-- Days from the start of year 0 to the start of a year. There is a leap day
for each multiple of 4 passed, but for a multiple of 100 only if it is also
one of 400. -/
def daysBeforeYear (year : Int) : Int :=
  365 * year + (year + 3) / 4 - (year + 99) / 100 + (year + 399) / 400

def firstYear : Int := -262143

def lastYear : Int := 262142

end Calendar

open Calendar

structure Date where
  year : Int
  month : Nat
  day : Nat
  year_mem : firstYear ≤ year ∧ year ≤ lastYear
  month_mem : 1 ≤ month ∧ month ≤ 12
  day_mem : 1 ≤ day ∧ day ≤ monthLength year month
  deriving DecidableEq

namespace Date

def ofYearMonthDay? (year : Int) (month day : Nat) : Option Date :=
  if h : (firstYear ≤ year ∧ year ≤ lastYear) ∧ (1 ≤ month ∧ month ≤ 12) ∧
      (1 ≤ day ∧ day ≤ monthLength year month) then
    some ⟨year, month, day, h.1, h.2.1, h.2.2⟩
  else none

/-- Days since the first of January of year 0. -/
def dayNumber (d : Date) : Int :=
  daysBeforeYear d.year + daysBeforeMonth d.year d.month + (d.day - 1)

def weekday (d : Date) : Weekday :=
  .ofIndex ((d.dayNumber + Weekday.sat.index) % 7).toNat

/-- The following date, unless the supported years end. -/
def next? (d : Date) : Option Date :=
  if d.day < monthLength d.year d.month then ofYearMonthDay? d.year d.month (d.day + 1)
  else if d.month < 12 then ofYearMonthDay? d.year (d.month + 1) 1
  else ofYearMonthDay? (d.year + 1) 1 1

end Date

/-- A leap second is counted with the second before it, which may be any: its
nanoseconds are those from a thousand million on. -/
structure TimeOfDay where
  hour : Nat
  minute : Nat
  second : Nat
  nano : Nat
  hour_lt : hour < 24
  minute_lt : minute < 60
  second_lt : second < 60
  nano_lt : nano < 2000000000
  deriving DecidableEq

namespace TimeOfDay

/-- A leap second is only accepted at the end of a minute. -/
def ofParts? (hour minute second nano : Nat) : Option TimeOfDay :=
  if h : hour < 24 ∧ minute < 60 ∧ second < 60 ∧
      (nano < 1000000000 ∨ second = 59 ∧ nano < 2000000000) then
    some ⟨hour, minute, second, nano, h.1, h.2.1, h.2.2.1, by omega⟩
  else none

/-- Seconds and their fractions are dropped. -/
def clockTime (t : TimeOfDay) : ClockTime :=
  ⟨60 * t.hour + t.minute, by have := t.hour_lt; have := t.minute_lt; omega⟩

theorem ofHourMinute?_eq_clockTime (t : TimeOfDay) :
    ClockTime.ofHourMinute? t.hour t.minute = some t.clockTime :=
  dif_pos ⟨t.hour_lt, t.minute_lt⟩

end TimeOfDay

structure DateTime where
  date : Date
  time : TimeOfDay
  deriving DecidableEq

def DateTime.moment (t : DateTime) : Moment := ⟨t.date.weekday, t.time.clockTime⟩

end WeeklyAgenda

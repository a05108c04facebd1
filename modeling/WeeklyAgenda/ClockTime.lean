import WeeklyAgenda.Text.Numeral

/-! A time of day to the minute. -/

namespace WeeklyAgenda

structure ClockTime where
  /-- Minutes since midnight. -/
  minutes : Nat
  minutes_lt : minutes < 1440
  deriving DecidableEq

namespace ClockTime

def midnight : ClockTime := ⟨0, by decide⟩

/-- The last minute of the day. -/
def last : ClockTime := ⟨1439, by decide⟩

def ofMinutes? (n : Nat) : Option ClockTime :=
  if h : n < 1440 then some ⟨n, h⟩ else none

def ofHourMinute? (hour minute : Nat) : Option ClockTime :=
  if h : hour < 24 ∧ minute < 60 then some ⟨60 * hour + minute, by omega⟩ else none

def hour (t : ClockTime) : Nat := t.minutes / 60

def minute (t : ClockTime) : Nat := t.minutes % 60

/-- All times of the day, in order. -/
def all : List ClockTime := (List.range 1440).filterMap ofMinutes?

/-- Hour and minute in two digits each, as in `09:05`. -/
def text (t : ClockTime) : String :=
  Numeral.twoDigits t.hour ++ ":" ++ Numeral.twoDigits t.minute

/-- Times are in the order of the day. -/
instance : Ord ClockTime := ⟨fun s t => compare s.minutes t.minutes⟩

theorem hour_lt (t : ClockTime) : t.hour < 24 := by
  have := t.minutes_lt
  simp only [hour]
  omega

theorem minute_lt (t : ClockTime) : t.minute < 60 := Nat.mod_lt _ (by decide)

@[ext]
theorem ext {s t : ClockTime} (h : s.minutes = t.minutes) : s = t := by
  cases s
  cases t
  simpa using h

theorem ofMinutes?_minutes (t : ClockTime) : ofMinutes? t.minutes = some t := by
  simp [ofMinutes?, t.minutes_lt]

theorem ofHourMinute?_hour_minute (t : ClockTime) : ofHourMinute? t.hour t.minute = some t := by
  have h : t.hour < 24 ∧ t.minute < 60 := ⟨t.hour_lt, t.minute_lt⟩
  rw [ofHourMinute?, dif_pos h]
  congr 1
  ext
  exact Nat.div_add_mod _ _

end ClockTime

end WeeklyAgenda

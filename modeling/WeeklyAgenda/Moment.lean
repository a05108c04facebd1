import WeeklyAgenda.Weekday
import WeeklyAgenda.ClockTime

/-! A minute of the week. -/

namespace WeeklyAgenda

structure Moment where
  day : Weekday
  time : ClockTime
  deriving DecidableEq

namespace Moment

/-- Days are numbered from 1 for Sunday, minutes from midnight. -/
def ofNumbers? (day minutes : Nat) : Option Moment :=
  match Weekday.ofNumber? day, ClockTime.ofMinutes? minutes with
  | some d, some t => some ⟨d, t⟩
  | _, _ => none

/-- The name of the day and the time, as in `Mon 10:00`. -/
def text (m : Moment) : String := m.day.name ++ " " ++ m.time.text

end Moment

end WeeklyAgenda

import WeeklyAgenda.Line.Reading

/-! A check of one line at one moment. It asks for what holds of every line, so
that a violation means an error in reading or evaluation. -/

namespace WeeklyAgenda.SelfCheck

inductive Violation where
  | emptySchedule
  /-- A second reading differs from the first. -/
  | unstableReading
  /-- The reminder and its windows do not agree on the moment. -/
  | disagreement
  deriving DecidableEq

/-- The moment that any two numbers are reduced to. -/
def moment? (day minutes : Nat) : Option Moment :=
  Moment.ofNumbers? (day % 7 + 1) (minutes % 1440)

def anyWindow (r : Reminder) (m : Moment) : Bool :=
  r.schedule.windows.any fun w => w.days.holds m.day && w.times.holds m.time

/-- Whether the line gives a reminder. -/
def run (line : String) (day minutes : Nat) : Except Violation Bool :=
  match moment? day minutes, Reminder.parse? line with
  | some m, some r =>
    if r.schedule.isEmpty then .error .emptySchedule
    else if Reminder.parse? line ≠ some r then .error .unstableReading
    else if r.activeAt m ≠ anyWindow r m then .error .disagreement
    else .ok true
  | _, _ => .ok false

end WeeklyAgenda.SelfCheck

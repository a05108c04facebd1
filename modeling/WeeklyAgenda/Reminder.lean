import WeeklyAgenda.Schedule

/-! A reminder is a label with the schedule on which it is shown. -/

namespace WeeklyAgenda

structure Reminder where
  label : String
  schedule : Schedule
  deriving DecidableEq

namespace Reminder

def activeAt (r : Reminder) (m : Moment) : Bool := r.schedule.holds m

def text (r : Reminder) : String := r.label ++ " (" ++ r.schedule.text ++ ")"

end Reminder

end WeeklyAgenda

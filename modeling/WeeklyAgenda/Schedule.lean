import WeeklyAgenda.DaySet
import WeeklyAgenda.TimeSet
import WeeklyAgenda.Moment

/-! A schedule is a list of windows, and a window joins days with times. The
schedule holds at a moment if one window has both the day and the time. -/

namespace WeeklyAgenda

structure Window where
  days : DaySet
  times : TimeSet
  deriving DecidableEq

namespace Window

def holds (w : Window) (m : Moment) : Bool := w.days.holds m.day && w.times.holds m.time

def text (w : Window) : String := "weekday: " ++ w.days.text ++ " time: " ++ w.times.text

end Window

structure Schedule where
  windows : List Window
  deriving DecidableEq

namespace Schedule

def isEmpty (s : Schedule) : Bool := s.windows.isEmpty

def holds (s : Schedule) (m : Moment) : Bool := s.windows.any fun w => w.holds m

def text (s : Schedule) : String := ", ".intercalate (s.windows.map Window.text)

end Schedule

end WeeklyAgenda

import WeeklyAgenda.AnyOf
import WeeklyAgenda.ClockTime

/-! Which times of the day are meant: ranges with both ends included. A range
never passes midnight, so one that starts after its end holds at no time. -/

namespace WeeklyAgenda

structure TimeRange where
  first : ClockTime
  last : ClockTime
  deriving DecidableEq

namespace TimeRange

def holds (r : TimeRange) (t : ClockTime) : Bool :=
  r.first.minutes ≤ t.minutes && t.minutes ≤ r.last.minutes

/-- Whether the range holds at no time of the day. -/
def never (r : TimeRange) : Bool := r.last.minutes < r.first.minutes

/-- Both ends in minutes since midnight. -/
def text (r : TimeRange) : String :=
  toString r.first.minutes ++ "-" ++ toString r.last.minutes

end TimeRange

abbrev TimeSet := AnyOf TimeRange

namespace TimeSet

def holds (s : TimeSet) (t : ClockTime) : Bool := s.someLeaf fun r => r.holds t

/-- Whether each range is one that never holds. -/
def never (s : TimeSet) : Bool := s.everyLeaf TimeRange.never

def text (s : TimeSet) : String := AnyOf.text TimeRange.text s

end TimeSet

end WeeklyAgenda

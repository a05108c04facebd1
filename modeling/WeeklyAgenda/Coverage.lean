import WeeklyAgenda.Moment

/-! When a condition on moments holds, as the longest stretches of minutes on
each day of the week. -/

namespace WeeklyAgenda

/-- The first and the last minute of a stretch. -/
abbrev Stretch := ClockTime × ClockTime

namespace Coverage

/-- Puts a time in front of later stretches, into the first one if it is the
minute before it. -/
def extend (t : ClockTime) : List Stretch → List Stretch
  | [] => [(t, t)]
  | (first, last) :: rest =>
    if t.minutes + 1 = first.minutes then (t, last) :: rest else (t, t) :: (first, last) :: rest

/-- The stretches of a day on which `p` holds, in order. -/
def ofDay (p : ClockTime → Bool) : List Stretch := (ClockTime.all.filter p).foldr extend []

/-- The days from Sunday to Saturday. -/
def ofWeek (p : Moment → Bool) : List (List Stretch) :=
  Weekday.all.map fun d => ofDay fun t => p ⟨d, t⟩

end Coverage

end WeeklyAgenda

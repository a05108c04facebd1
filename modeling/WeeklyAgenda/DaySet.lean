import WeeklyAgenda.AnyOf
import WeeklyAgenda.Weekday

/-! Which days of the week are meant: single days and spans of days. A span
that starts later in the week than it ends passes from Saturday to Sunday. -/

namespace WeeklyAgenda

inductive DayRule where
  | on (day : Weekday)
  | span (first last : Weekday)
  deriving DecidableEq

namespace DayRule

/-- Whether the week turns within the rule. -/
def wraps : DayRule → Bool
  | .on _ => false
  | .span first last => last.index < first.index

/-- The rule as stretches within one week: a span that wraps is cut after
Saturday. -/
def stretches (r : DayRule) : List (Weekday × Weekday) :=
  match r with
  | .on day => [(day, day)]
  | .span first last => if r.wraps then [(first, .sat), (.sun, last)] else [(first, last)]

def holds (r : DayRule) (d : Weekday) : Bool :=
  r.stretches.any fun (first, last) => first.index ≤ d.index && d.index ≤ last.index

/-- The number of a day, or those of both ends. -/
def text : DayRule → String
  | .on day => toString day.number
  | .span first last => toString first.number ++ "-" ++ toString last.number

end DayRule

abbrev DaySet := AnyOf DayRule

namespace DaySet

def holds (s : DaySet) (d : Weekday) : Bool := s.someLeaf fun r => r.holds d

/-- Only a bare span can wrap; alternatives, even a single one, do not. -/
def wraps : DaySet → Bool
  | .leaf r => r.wraps
  | .among _ => false

def text (s : DaySet) : String := AnyOf.text DayRule.text s

def days (s : DaySet) : List Weekday := Weekday.all.filter fun d => s.holds d

end DaySet

end WeeklyAgenda

/-! Why a line gives no reminder, and how that is told. -/

namespace WeeklyAgenda

inductive LineError where
  /-- The line has no semicolon. -/
  | missingClause (line : String)
  /-- No clause has both a day and a time. -/
  | emptySchedule
  deriving DecidableEq

namespace LineError

/-- A sign that stands for a break. -/
def breakSign (c : Char) : Char :=
  if c = '\r' then '␍' else if c = '\n' then '␊' else c

/-- The first line of a text. Where it starts with a break, breaks are shown as
signs, and else they are left out. -/
def excerpt (text : List Char) : List Char :=
  let first := text.takeWhile (· ≠ '\n') ++ (text.dropWhile (· ≠ '\n')).take 1
  match text with
  | '\r' :: _ | '\n' :: _ => first.map breakSign
  | _ => first.filter fun c => c ≠ '\r' && c ≠ '\n'

def message : LineError → String
  | missingClause line =>
    "\n".intercalate
      [" --> 1:1",
       "  |",
       "1 | " ++ String.ofList (excerpt line.toList),
       "  | ^---",
       "  |",
       "  = expected entry"]
  | emptySchedule => "no clause with both a weekday and a time range"

end LineError

end WeeklyAgenda

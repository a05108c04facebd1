import WeeklyAgenda.Line.Word
import WeeklyAgenda.Reminder

/-! A reminder as a line: the label and, behind a semicolon each, the words of
the windows, days before times. -/

namespace WeeklyAgenda

def DayRule.word : DayRule → String
  | .on day => day.english
  | .span first last => first.english ++ "-" ++ last.english

def TimeRange.word (r : TimeRange) : String := r.first.text ++ "-" ++ r.last.text

def Window.words (w : Window) : List String :=
  w.days.leaves.map DayRule.word ++ w.times.leaves.map TimeRange.word

def Window.clause (w : Window) : String := ";" ++ " ".intercalate w.words

def Reminder.toLine (r : Reminder) : String :=
  r.label ++ String.join (r.schedule.windows.map Window.clause)

end WeeklyAgenda

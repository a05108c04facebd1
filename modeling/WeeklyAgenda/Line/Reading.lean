import WeeklyAgenda.Line.Error
import WeeklyAgenda.Line.Grammar
import WeeklyAgenda.Line.Word
import WeeklyAgenda.Reminder
import WeeklyAgenda.Text.Blank

/-! A line as a reminder. Words without a meaning are passed over, and so are
clauses that lack a day or a time; a line needs one clause that has both. -/

namespace WeeklyAgenda

open Line

/-- The window of a clause with at least one day and one time. -/
def Window.ofMeanings? (clause : List Meaning) : Option Window :=
  let days := clause.filterMap Meaning.day?
  let times := clause.filterMap Meaning.time?
  if days.isEmpty || times.isEmpty then none else some ⟨.ofList days, .ofList times⟩

/-- The label is kept without the blanks around it. -/
def Reminder.ofClauses (label : List Char) (clauses : List (List Meaning)) :
    Except LineError Reminder :=
  match clauses.filterMap Window.ofMeanings? with
  | [] => .error .emptySchedule
  | windows => .ok ⟨String.ofList (Blank.trim label), ⟨windows⟩⟩

namespace Line

def Layout.meanings (l : Layout) : List (List Meaning) :=
  l.clauses.map fun clause => clause.map Meaning.ofWord

/-- What reading a line finds: the words passed over, in order, also those of
clauses that are dropped, and the reminder. -/
structure Reading where
  ignored : List IgnoredWord
  outcome : Except LineError Reminder

def Reading.ofLine (line : String) : Reading :=
  match Grammar.read? line.toList with
  | none => ⟨[], .error (.missingClause line)⟩
  | some l =>
    ⟨l.meanings.flatten.filterMap Meaning.ignored?, Reminder.ofClauses l.label l.meanings⟩

end Line

namespace Reminder

def parse (line : String) : Except LineError Reminder := (Reading.ofLine line).outcome

def parse? (line : String) : Option Reminder := (parse line).toOption

end Reminder

end WeeklyAgenda

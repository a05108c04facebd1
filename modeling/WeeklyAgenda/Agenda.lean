import WeeklyAgenda.Reminder

/-! A list of reminders whose order every operation keeps. -/

namespace WeeklyAgenda

structure Agenda where
  reminders : List Reminder
  deriving DecidableEq

namespace Agenda

def empty : Agenda := ⟨[]⟩

def size (a : Agenda) : Nat := a.reminders.length

def isEmpty (a : Agenda) : Bool := a.reminders.isEmpty

/-- The reminders to be shown at a moment. -/
def activeAt (a : Agenda) (m : Moment) : List Reminder := a.reminders.filter fun r => r.activeAt m

def labelsAt (a : Agenda) (m : Moment) : List String := (a.activeAt m).map Reminder.label

/-- The reminders at the given positions, as often as each is given; positions
past the end are left out. -/
def pick (a : Agenda) (positions : List Nat) : Agenda :=
  ⟨positions.filterMap fun i => a.reminders[i]?⟩

def append (a b : Agenda) : Agenda := ⟨a.reminders ++ b.reminders⟩

end Agenda

end WeeklyAgenda

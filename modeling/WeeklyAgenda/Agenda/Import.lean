import WeeklyAgenda.Agenda
import WeeklyAgenda.Agenda.Event

/-! An agenda from the lines of a text. Each line gives a reminder or is
skipped, and the events tell which. -/

namespace WeeklyAgenda

structure Import where
  agenda : Agenda
  events : List Event

namespace Import

/-- What the lines from some number on give. -/
structure Pass where
  reminders : List Reminder
  events : List Event
  skipped : Nat

/-- Puts a line, with its number, in front of later ones. -/
def Pass.cons (number : Nat) (reading : Line.Reading) (after : Pass) : Pass :=
  let ignored := reading.ignored.map Event.ignored
  match reading.outcome with
  | .ok r =>
    ⟨r :: after.reminders, ignored ++ .loaded number r :: after.events, after.skipped⟩
  | .error e =>
    ⟨after.reminders, ignored ++ .skipped number e :: after.events, after.skipped + 1⟩

def passFrom (number : Nat) : List String → Pass
  | [] => ⟨[], [], 0⟩
  | line :: rest => .cons number (.ofLine line) (passFrom (number + 1) rest)

def ofLines (lines : List String) : Import :=
  let pass := passFrom 1 lines
  ⟨⟨pass.reminders⟩, pass.events ++ [.finished pass.reminders.length pass.skipped]⟩

theorem Pass.cons_reminders (number : Nat) (reading : Line.Reading) (after : Pass) :
    (Pass.cons number reading after).reminders =
      reading.outcome.toOption.toList ++ after.reminders := by
  simp only [Pass.cons]
  split <;> simp [*, Except.toOption]

theorem passFrom_reminders (number : Nat) (lines : List String) :
    (passFrom number lines).reminders = lines.filterMap Reminder.parse? := by
  induction lines generalizing number with
  | nil => rfl
  | cons line rest ih =>
    rw [passFrom, Pass.cons_reminders, ih, List.filterMap_cons, Reminder.parse?, Reminder.parse]
    cases (Line.Reading.ofLine line).outcome.toOption <;> rfl

end Import

/-- The agenda of the lines that give a reminder. -/
def Agenda.ofLines (lines : List String) : Agenda := (Import.ofLines lines).agenda

theorem Agenda.ofLines_reminders (lines : List String) :
    (Agenda.ofLines lines).reminders = lines.filterMap Reminder.parse? :=
  Import.passFrom_reminders 1 lines

end WeeklyAgenda

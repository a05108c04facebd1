import WeeklyAgenda.Storage.Load

/-! The command: with the path of a file it prints the labels of the reminders
that are active now. -/

namespace WeeklyAgenda.Command

structure Outcome where
  status : Nat
  stdout : String
  stderr : String
  deriving DecidableEq

def usage : String := "Usage: reminders <DATABASE>"

/-- The text of a line of output. -/
def printed (line : String) : String := line ++ "\n"

/-- Asking for anything but one path is answered with the usage, which is no
failure; the file is not touched then. -/
def run (disk : Disk) (now : Moment) : List String → Outcome
  | [path] =>
    match Agenda.load disk path with
    | .error e => ⟨1, "", printed e.message⟩
    | .ok a => ⟨0, String.join ((a.labelsAt now).map printed), ""⟩
  | _ => ⟨0, printed usage, ""⟩

end WeeklyAgenda.Command

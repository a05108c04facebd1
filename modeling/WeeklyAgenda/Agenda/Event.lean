import WeeklyAgenda.Line.Reading

/-! What is recorded while lines are made into an agenda. -/

namespace WeeklyAgenda

inductive Level where
  | trace
  | debug
  | info
  deriving DecidableEq

def Level.name : Level → String
  | .trace => "TRACE"
  | .debug => "DEBUG"
  | .info => "INFO"

/-- Lines are numbered from 1, those without a reminder too. -/
inductive Event where
  | ignored (word : Line.IgnoredWord)
  | loaded (line : Nat) (reminder : Reminder)
  | skipped (line : Nat) (cause : LineError)
  | finished (loaded skipped : Nat)

namespace Event

def level : Event → Level
  | ignored _ => .debug
  | loaded .. => .trace
  | skipped .. => .debug
  | finished .. => .info

def message : Event → String
  | ignored w => "Ignoring invalid " ++ w.kind.name ++ " `" ++ w.word ++ "` in reminder entry"
  | loaded _ r => "Loaded reminder entry: " ++ r.text
  | skipped _ e => "Skipping invalid reminder entry: " ++ e.message
  | finished n _ => "Loaded " ++ toString n ++ " reminder entries"

/-- The numbers recorded beside the message. -/
def fields : Event → List (String × Nat)
  | ignored _ => []
  | loaded line _ => [("line", line)]
  | skipped line _ => [("line", line)]
  | finished n m => [("loaded", n), ("skipped", m)]

end Event

end WeeklyAgenda

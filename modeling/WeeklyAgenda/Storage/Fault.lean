/-! Why a file could not be opened or read. -/

namespace WeeklyAgenda

inductive Fault where
  | notFound
  | notDirectory
  | isDirectory
  | nameTooLong
  | nulInName
  /-- A cause that comes with a text of its own. -/
  | other (text : String)
  deriving DecidableEq

namespace Fault

/-- The text of a fault that the operating system reports, with its number. -/
def systemText (text : String) (number : Nat) : String :=
  text ++ " (os error " ++ toString number ++ ")"

def message : Fault → String
  | notFound => systemText "No such file or directory" 2
  | notDirectory => systemText "Not a directory" 20
  | isDirectory => systemText "Is a directory" 21
  | nameTooLong => systemText "File name too long" 36
  | nulInName => "file name contained an unexpected NUL byte"
  | other text => text

/-- The fault with a number of the operating system. -/
def ofSystem (text : String) (number : Nat) : Fault :=
  match number with
  | 2 => .notFound
  | 20 => .notDirectory
  | 21 => .isDirectory
  | 36 => .nameTooLong
  | _ => .other (systemText text number)

end Fault

inductive LoadError where
  | unopened (path : String) (cause : Fault)
  | unread (cause : Fault)
  deriving DecidableEq

namespace LoadError

def cause : LoadError → Fault
  | unopened _ cause => cause
  | unread cause => cause

def message : LoadError → String
  | unopened path cause => "could not open reminders database `" ++ path ++ "`: " ++ cause.message
  | unread cause => "could not read reminders database: " ++ cause.message

end LoadError

end WeeklyAgenda

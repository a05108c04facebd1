import WeeklyAgenda.DaySet
import WeeklyAgenda.TimeSet
import WeeklyAgenda.Line.Layout
import WeeklyAgenda.Text.Lowercase
import WeeklyAgenda.Text.Pieces

/-! What a word of a clause means. Words are read in lower case. A word that
starts with a digit can be a time range and any other a day or a span of days;
a word that is neither is set aside. -/

namespace WeeklyAgenda

open Line

namespace Weekday

def english : Weekday → String
  | .sun => "sun"
  | .mon => "mon"
  | .tue => "tue"
  | .wed => "wed"
  | .thu => "thu"
  | .fri => "fri"
  | .sat => "sat"

/-- The days after Sunday are the second to the seventh of the week. -/
def vietnamese : Weekday → String
  | .sun => "cn"
  | .mon => "t2"
  | .tue => "t3"
  | .wed => "t4"
  | .thu => "t5"
  | .fri => "t6"
  | .sat => "t7"

def ofAbbreviation? (word : Word) : Option Weekday :=
  all.find? fun d => d.english.toList == word || d.vietnamese.toList == word

end Weekday

/-- A day, or two days with hyphens between them; further hyphens do not
matter. -/
def DayRule.ofWord? (word : Word) : Option DayRule :=
  match Pieces.words (· == '-') word with
  | [day] => (Weekday.ofAbbreviation? day).map .on
  | [first, last] =>
    match Weekday.ofAbbreviation? first, Weekday.ofAbbreviation? last with
    | some first, some last => some (.span first last)
    | _, _ => none
  | _ => none

/-- An hour, or an hour and a minute with colons between them. A minute that is
no numeral counts as zero, an hour has to be one. -/
def ClockTime.ofText? (text : List Char) : Option ClockTime :=
  if ':' ∈ text then
    match Pieces.words (· == ':') text with
    | [hour, minute] =>
      if Numeral.startsWithDigit hour then
        (Numeral.read? hour).bind fun h => ofHourMinute? h ((Numeral.read? minute).getD 0)
      else none
    | _ => none
  else (Numeral.read? text).bind fun h => ofHourMinute? h 0

/-- Two times with one hyphen between them. -/
def TimeRange.ofWord? (word : Word) : Option TimeRange :=
  match Pieces.pieces (· == '-') word with
  | [first, last] =>
    match ClockTime.ofText? first, ClockTime.ofText? last with
    | some first, some last => some ⟨first, last⟩
    | _, _ => none
  | _ => none

namespace Line

/-- What a word was taken for. -/
inductive WordKind where
  | weekday
  | timeRange
  deriving DecidableEq

def WordKind.name : WordKind → String
  | .weekday => "weekday"
  | .timeRange => "time range"

/-- A word without a meaning, in lower case. -/
structure IgnoredWord where
  kind : WordKind
  word : String
  deriving DecidableEq

inductive Meaning where
  | day (rule : DayRule)
  | time (range : TimeRange)
  | ignored (word : IgnoredWord)
  deriving DecidableEq

namespace Meaning

def day? : Meaning → Option DayRule
  | day r => some r
  | _ => none

def time? : Meaning → Option TimeRange
  | time r => some r
  | _ => none

def ignored? : Meaning → Option IgnoredWord
  | ignored w => some w
  | _ => none

/-- The meaning of a word that is in lower case. -/
def ofLower (word : Word) : Meaning :=
  if Numeral.startsWithDigit word then
    match TimeRange.ofWord? word with
    | some r => time r
    | none => ignored ⟨.timeRange, String.ofList word⟩
  else
    match DayRule.ofWord? word with
    | some r => day r
    | none => ignored ⟨.weekday, String.ofList word⟩

def ofWord (word : Word) : Meaning := ofLower (Lowercase.lower word)

end Meaning

end Line

end WeeklyAgenda

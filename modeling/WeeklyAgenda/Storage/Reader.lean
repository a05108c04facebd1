import WeeklyAgenda.Storage.Fault
import WeeklyAgenda.Text.Pieces
import WeeklyAgenda.Text.Utf8

/-! Bytes that arrive in chunks, and the lines in them. A reader ends at the end
of its bytes or at a fault; with a fault there are no lines at all. -/

namespace WeeklyAgenda

structure Reader where
  chunks : List (List UInt8)
  fault : Option Fault

namespace Reader

def lineFeed : UInt8 := 0x0A

def carriageReturn : UInt8 := 0x0D

/-- The lines that a chunk completes, and the line in progress after it. Lines
in progress are held backwards. -/
def feed (current : List UInt8) : List UInt8 → List (List UInt8) × List UInt8
  | [] => ([], current)
  | b :: rest =>
    if b = lineFeed then
      let (lines, current') := feed [] rest
      (current.reverse :: lines, current')
    else feed (b :: current) rest

/-- At the end a line in progress counts unless it is empty. -/
def linesFrom (current : List UInt8) (fault : Option Fault) :
    List (List UInt8) → Except Fault (List (List UInt8))
  | [] =>
    match fault with
    | some f => .error f
    | none => .ok (if current.isEmpty then [] else [current.reverse])
  | chunk :: chunks =>
    let (lines, current') := feed current chunk
    match linesFrom current' fault chunks with
    | .error f => .error f
    | .ok rest => .ok (lines ++ rest)

/-- The lines without their line feeds. -/
def byteLines (r : Reader) : Except Fault (List (List UInt8)) := linesFrom [] r.fault r.chunks

/-- The text of a line without the carriage return that may end it. -/
def lineText (line : List UInt8) : String :=
  String.ofList (Utf8.decode (Pieces.dropLastIf (· == carriageReturn) line))

def lines (r : Reader) : Except Fault (List String) := r.byteLines.map fun ls => ls.map lineText

end Reader

end WeeklyAgenda

/-! Cutting a list at its separators. -/

namespace WeeklyAgenda.Pieces

variable {α : Type}

/-- The part before the first separator, and the parts after each one. -/
def cut (isSep : α → Bool) : List α → List α × List (List α)
  | [] => ([], [])
  | a :: rest =>
    let (first, others) := cut isSep rest
    if isSep a then ([], first :: others) else (a :: first, others)

/-- All parts, one more than there are separators. -/
def pieces (isSep : α → Bool) (text : List α) : List (List α) :=
  let (first, others) := cut isSep text
  first :: others

/-- The parts that are not empty: the longest runs free of separators. -/
def words (isSep : α → Bool) (text : List α) : List (List α) :=
  (pieces isSep text).filter fun piece => !piece.isEmpty

def dropLastIf (p : α → Bool) (text : List α) : List α :=
  match text.getLast? with
  | some a => if p a then text.dropLast else text
  | none => text

/-- Lines end at each break; what follows the last break is a line only if it
is not empty. -/
def lines (isBreak : α → Bool) (text : List α) : List (List α) :=
  dropLastIf List.isEmpty (pieces isBreak text)

end WeeklyAgenda.Pieces

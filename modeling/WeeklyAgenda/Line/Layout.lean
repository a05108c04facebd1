/-! The layout of a line: a label, and clauses that are made of words. -/

namespace WeeklyAgenda.Line

abbrev Word := List Char

structure Layout where
  label : List Char
  clauses : List (List Word)
  deriving DecidableEq

def isSemicolon (c : Char) : Bool := c == ';'

/-- Words are set apart by spaces and commas. -/
def isSeparator (c : Char) : Bool := c == ' ' || c == ','

end WeeklyAgenda.Line

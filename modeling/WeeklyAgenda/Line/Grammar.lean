import WeeklyAgenda.Line.Layout
import WeeklyAgenda.Line.Pattern

/-! The grammar of a line. A label runs to the first semicolon, and each
semicolon opens a clause of words. Any text with a semicolon is a line. -/

namespace WeeklyAgenda.Line.Grammar

open Pattern

def semicolon : Pattern Char := one ';'

def separator : Pattern Char := choice (one ' ') (one ',')

def word : Pattern Word := plus (before (absent (choice separator semicolon)) any)

def clause : Pattern (List Word) :=
  before (star separator) (star (followedBy word (star separator)))

def label : Pattern (List Char) := star (before (absent semicolon) any)

def layout : Pattern Layout :=
  map (fun (label, clauses) => ⟨label, clauses⟩) (seq label (plus (before semicolon clause)))

/-- A layout and nothing after it. -/
def line : Pattern Layout := followedBy layout finish

def read? (text : List Char) : Option Layout := (line.run text).map Prod.fst

end WeeklyAgenda.Line.Grammar

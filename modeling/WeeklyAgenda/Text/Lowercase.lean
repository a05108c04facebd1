import WeeklyAgenda.Text.Cased
import WeeklyAgenda.Text.CaseIgnorable
import WeeklyAgenda.Text.LowercaseMapping

/-! Lower case for all scripts. Each letter is mapped on its own, but for the
capital sigma, which has a form of its own at the end of a word. -/

namespace WeeklyAgenda.Lowercase

/-- The dotted capital I keeps its dot as a combining mark. -/
def letters (c : Char) : List Char :=
  if c.toNat < 0x80 then [c.toLower]
  else if c = 'İ' then ['i', '\u0307']
  else [LowercaseMapping.lower c]

/-- Whether the first character that counts for case has one. -/
def meetsCased (text : List Char) : Bool :=
  match text.dropWhile CaseIgnorable.isCaseIgnorable with
  | [] => false
  | c :: _ => Cased.isCased c

/-- A sigma is final with a letter before it and none after; `before` is read
from the sigma backwards. -/
def isFinal (before after : List Char) : Bool := meetsCased before && !meetsCased after

def lowerFrom (before : List Char) : List Char → List Char
  | [] => []
  | c :: rest =>
    let here := if c = 'Σ' then (if isFinal before rest then ['ς'] else ['σ']) else letters c
    here ++ lowerFrom (c :: before) rest

def lower (text : List Char) : List Char := lowerFrom [] text

end WeeklyAgenda.Lowercase

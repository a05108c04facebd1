/-! Decimal numerals: reading one with an optional plus sign up to a bound, and
writing numbers of at most two digits. -/

namespace WeeklyAgenda.Numeral

/-- The digits zero to nine of ASCII, and no others. -/
def isDigit (c : Char) : Bool := '0' ≤ c && c ≤ '9'

def startsWithDigit : List Char → Bool
  | [] => false
  | c :: _ => isDigit c

def digit (c : Char) : Nat := c.toNat - '0'.toNat

/-- The number that a row of digits denotes; leading zeros add nothing. -/
def value (digits : List Char) : Nat :=
  digits.foldl (fun n c => 10 * n + digit c) 0

/-- The largest number that is read. -/
def bound : Nat := 2147483647

/-- One plus sign in front of a numeral is passed over. -/
def unsigned : List Char → List Char
  | '+' :: rest => rest
  | text => text

def read? (text : List Char) : Option Nat :=
  let digits := unsigned text
  if digits ≠ [] ∧ digits.all isDigit ∧ value digits ≤ bound then some (value digits) else none

def digitChar (n : Nat) : Char := Char.ofNat ('0'.toNat + n)

/-- A number below one hundred in two digits. -/
def twoDigits (n : Nat) : String :=
  String.ofList [digitChar (n / 10), digitChar (n % 10)]

end WeeklyAgenda.Numeral

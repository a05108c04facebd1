/-! Sets of characters given as ranges of code points. -/

namespace WeeklyAgenda

/-- The first and the last code point of a range. -/
abbrev CodeRange := Nat × Nat

def CodeRange.mem (ranges : List CodeRange) (c : Char) : Bool :=
  ranges.any fun (first, last) => first ≤ c.toNat && c.toNat ≤ last

end WeeklyAgenda

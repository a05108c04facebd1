/-! Text as bytes. Reading goes byte by byte and never fails: bytes that do not
begin or do not complete a character give one replacement character for the
part that could have been one, and reading starts afresh at the byte that does
not fit. -/

namespace WeeklyAgenda.Utf8

def encode (text : List Char) : List UInt8 := text.flatMap String.utf8EncodeChar

def replacement : Char := '\uFFFD'

/-- Between characters, or within one: the bits read so far, the bytes that
come after the next, and the bounds of the next. Narrower bounds keep out
overlong forms, surrogates and what lies beyond the last code point. -/
inductive State where
  | ready
  | within (bits after low high : Nat)
  deriving DecidableEq

/-- The step from a byte that does not continue a character. -/
def start (b : Nat) : List Char × State :=
  if b < 0x80 then ([Char.ofNat b], .ready)
  else if b < 0xC2 then ([replacement], .ready)
  else if b < 0xE0 then ([], .within (b - 0xC0) 0 0x80 0xBF)
  else if b = 0xE0 then ([], .within 0x0 1 0xA0 0xBF)
  else if b = 0xED then ([], .within 0xD 1 0x80 0x9F)
  else if b < 0xF0 then ([], .within (b - 0xE0) 1 0x80 0xBF)
  else if b = 0xF0 then ([], .within 0x0 2 0x90 0xBF)
  else if b = 0xF4 then ([], .within 0x4 2 0x80 0x8F)
  else if b < 0xF4 then ([], .within (b - 0xF0) 2 0x80 0xBF)
  else ([replacement], .ready)

/-- The characters that a byte completes, and the state after it. -/
def step (s : State) (b : Nat) : List Char × State :=
  match s with
  | .ready => start b
  | .within bits after low high =>
    if low ≤ b ∧ b ≤ high then
      let bits := 64 * bits + (b - 0x80)
      match after with
      | 0 => ([Char.ofNat bits], .ready)
      | after + 1 => ([], .within bits after 0x80 0xBF)
    else
      let (out, s) := start b
      (replacement :: out, s)

/-- A character that the text ends in is replaced. -/
def finish : State → List Char
  | .ready => []
  | .within .. => [replacement]

def decodeFrom (s : State) : List UInt8 → List Char
  | [] => finish s
  | b :: rest =>
    let (out, s) := step s b.toNat
    out ++ decodeFrom s rest

def decode (bytes : List UInt8) : List Char := decodeFrom .ready bytes

end WeeklyAgenda.Utf8

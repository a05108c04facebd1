/-! Patterns over characters, each with the kind of value that a match yields.
Choice is ordered, repetition takes all that it can and gives nothing back, and
look-ahead takes no character. -/

namespace WeeklyAgenda.Line

inductive Pattern : Type → Type 1 where
  | char (accepts : Char → Bool) : Pattern Char
  /-- The end of the text. -/
  | finish : Pattern Unit
  | seq {α β : Type} (p : Pattern α) (q : Pattern β) : Pattern (α × β)
  /-- The second pattern is tried only where the first does not match. -/
  | choice {α : Type} (p q : Pattern α) : Pattern α
  /-- Any number of matches one after the other; the repeated pattern has to
  take at least one character at a time. -/
  | star {α : Type} (p : Pattern α) : Pattern (List α)
  /-- Matches where `p` does not. -/
  | absent {α : Type} (p : Pattern α) : Pattern Unit
  | map {α β : Type} (f : α → β) (p : Pattern α) : Pattern β

namespace Pattern

variable {α β : Type}

/-- Repeats a step until it fails. As each step takes a character, a bound as
long as the text is never met. -/
def repeated (step : List Char → Option (α × List Char)) :
    (bound text : List Char) → List α × List Char
  | [], text => ([], text)
  | _ :: bound, text =>
    match step text with
    | none => ([], text)
    | some (a, rest) =>
      let (as, rest) := repeated step bound rest
      (a :: as, rest)

/-- The value of the match at the start of a text, and the text behind it. -/
def run {α : Type} : Pattern α → List Char → Option (α × List Char)
  | char _, [] => none
  | char accepts, c :: rest => if accepts c then some (c, rest) else none
  | finish, text => if text.isEmpty then some ((), text) else none
  | seq p q, text =>
    match p.run text with
    | none => none
    | some (a, rest) =>
      match q.run rest with
      | none => none
      | some (b, rest) => some ((a, b), rest)
  | choice p q, text =>
    match p.run text with
    | none => q.run text
    | some result => some result
  | star p, text => some (repeated p.run text text)
  | absent p, text =>
    match p.run text with
    | none => some ((), text)
    | some _ => none
  | map f p, text =>
    match p.run text with
    | none => none
    | some (a, rest) => some (f a, rest)

theorem run_char_cons (accepts : Char → Bool) (c : Char) (rest : List Char) :
    (char accepts).run (c :: rest) = if accepts c then some (c, rest) else none := rfl

theorem run_seq (p : Pattern α) (q : Pattern β) (text : List Char) :
    (seq p q).run text =
      (p.run text).bind fun (a, mid) => (q.run mid).map fun (b, rest) => ((a, b), rest) := by
  change (match p.run text with
    | none => none
    | some (a, rest) =>
      match q.run rest with
      | none => none
      | some (b, rest) => some ((a, b), rest)) = _
  cases p.run text with
  | none => rfl
  | some first =>
    dsimp only [Option.bind_some]
    cases q.run first.2 <;> rfl

theorem run_choice (p q : Pattern α) (text : List Char) :
    (choice p q).run text = (p.run text).or (q.run text) := by
  change (match p.run text with
    | none => q.run text
    | some result => some result) = _
  cases p.run text <;> rfl

theorem run_map (f : α → β) (p : Pattern α) (text : List Char) :
    (map f p).run text = (p.run text).map fun (a, rest) => (f a, rest) := by
  change (match p.run text with
    | none => none
    | some (a, rest) => some (f a, rest)) = _
  cases p.run text <;> rfl

def one (c : Char) : Pattern Char := char fun x => x == c

def any : Pattern Char := char fun _ => true

/-- Both in turn, for the value of the first. -/
def followedBy (p : Pattern α) (q : Pattern β) : Pattern α := map Prod.fst (seq p q)

/-- Both in turn, for the value of the second. -/
def before (p : Pattern α) (q : Pattern β) : Pattern β := map Prod.snd (seq p q)

/-- At least one match. -/
def plus (p : Pattern α) : Pattern (List α) := map (fun (a, as) => a :: as) (seq p (star p))

end Pattern

end WeeklyAgenda.Line

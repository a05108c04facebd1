import Mathlib.Data.List.Induction
import Mathlib.Data.Nat.Digits.Defs
import WeeklyAgenda.Proofs.Parts
import WeeklyAgenda.Text.Numeral

/-! The numbers that numerals denote. A numeral is read as the number that its
digits denote in the decimal system, whatever zeros stand in front. Reading it
digit by digit into a signed word of 32 bits, with a check on each product and
sum, comes to the same: the number is never wrapped, and none that fits is
refused. -/

namespace WeeklyAgenda.Numeral

open Pieces

/-- The number of the digits behind a number read before. -/
def valueFrom (n : Nat) (digits : List Char) : Nat :=
  digits.foldl (fun n c => 10 * n + digit c) n

theorem value_eq_valueFrom (digits : List Char) : value digits = valueFrom 0 digits := rfl

theorem valueFrom_cons (n : Nat) (c : Char) (digits : List Char) :
    valueFrom n (c :: digits) = valueFrom (10 * n + digit c) digits := by
  rw [valueFrom, List.foldl_cons, valueFrom]

theorem le_valueFrom (n : Nat) (digits : List Char) : n ≤ valueFrom n digits := by
  induction digits generalizing n with
  | nil => exact Nat.le_refl n
  | cons c digits ih => exact Nat.le_trans (by omega) (ih (10 * n + digit c))

/-! ### The decimal system -/

/-- At least one digit of ASCII, and the number is that of the digits to base ten,
the last one the lowest. -/
structure Denotes (digits : List Char) (n : Nat) : Prop where
  nonempty : digits ≠ []
  isDigit : ∀ c ∈ digits, isDigit c = true
  ofDigits : Nat.ofDigits 10 (digits.reverse.map digit) = n

/-- A number with or without a plus sign in front. -/
def DenotesSigned (text : List Char) (n : Nat) : Prop :=
  ∃ digits, (text = digits ∨ text = '+' :: digits) ∧ Denotes digits n

theorem value_eq_ofDigits (digits : List Char) :
    value digits = Nat.ofDigits 10 (digits.reverse.map digit) := by
  induction digits using List.reverseRecOn with
  | nil => rfl
  | append_singleton digits c ih =>
    rw [value, List.foldl_append, ← value, ih, List.reverse_append, List.map_append,
      Nat.ofDigits_append]
    simp [Nat.add_comm]

theorem denotes_unsigned_iff {text : List Char} {n : Nat} :
    Denotes (unsigned text) n ↔ DenotesSigned text n := by
  constructor
  · intro h
    unfold unsigned at h
    split at h
    · next digits => exact ⟨digits, .inr rfl, h⟩
    · exact ⟨text, .inl rfl, h⟩
  · rintro ⟨digits, rfl | rfl, h⟩
    · unfold unsigned
      split
      · next rest => cases h.isDigit '+' (by simp)
      · exact h
    · exact h

/-- Digits alone are a numeral that starts with a digit. -/
theorem denotes_iff {text : List Char} {n : Nat} :
    Denotes text n ↔ startsWithDigit text = true ∧ DenotesSigned text n := by
  constructor
  · intro h
    obtain ⟨c, rest, rfl⟩ := List.exists_cons_of_ne_nil h.nonempty
    exact ⟨h.isDigit c (by simp), _, .inl rfl, h⟩
  · rintro ⟨hd, digits, rfl | rfl, h⟩
    · exact h
    · cases hd

/-- A numeral is read as what it denotes, up to the largest signed word. -/
theorem read?_eq_some_iff {text : List Char} {n : Nat} :
    read? text = some n ↔ DenotesSigned text n ∧ n ≤ 2147483647 := by
  have hdigits : ∀ digits : List Char,
      (digits ≠ [] ∧ digits.all isDigit ∧ value digits ≤ bound) ∧ value digits = n ↔
        Denotes digits n ∧ n ≤ 2147483647 := by
    intro digits
    rw [value_eq_ofDigits, List.all_eq_true, bound]
    constructor
    · rintro ⟨⟨hne, hall, hle⟩, rfl⟩
      exact ⟨⟨hne, hall, rfl⟩, hle⟩
    · rintro ⟨⟨hne, hall, rfl⟩, hle⟩
      exact ⟨⟨hne, hall, hle⟩, rfl⟩
  rw [read?, Option.ite_none_right_eq_some, Option.some.injEq, hdigits, denotes_unsigned_iff]

/-! ### Zeros in front -/

/-- The same text, or zeros are put in front of the first digit of a number. -/
inductive Padded : List Char → List Char → Prop
  | same (text : List Char) : Padded text text
  | zeros {front : List Char} (k : Nat) {c : Char} (rest : List Char)
      (first : Begun (fun x => !isDigit x) front) (digit : isDigit c = true) :
      Padded (front ++ (List.replicate k '0' ++ c :: rest)) (front ++ c :: rest)

theorem valueFrom_replicate_zero (k : Nat) (digits : List Char) :
    valueFrom 0 (List.replicate k '0' ++ digits) = valueFrom 0 digits := by
  induction k with
  | zero => rfl
  | succ k ih => rw [List.replicate_succ, List.cons_append, valueFrom_cons]; exact ih

theorem startsWithDigit_replicate_zero {c : Char} (h : isDigit c = true) (k : Nat)
    (rest : List Char) : startsWithDigit (List.replicate k '0' ++ c :: rest) = true := by
  cases k with
  | zero => exact h
  | succ k => rfl

theorem unsigned_of_head? {text : List Char} (h : text.head? ≠ some '+') :
    unsigned text = text := by
  unfold unsigned
  split
  · exact absurd rfl h
  · rfl

/-- A sign stands in front of the digits. -/
theorem unsigned_append {tail : List Char} (h : startsWithDigit tail = true)
    (front : List Char) : unsigned (front ++ tail) = unsigned front ++ tail := by
  cases front with
  | nil =>
    apply unsigned_of_head?
    intro hplus
    obtain ⟨rest, rfl⟩ := List.head?_eq_some_iff.mp hplus
    cases h
  | cons x front =>
    by_cases hx : x = '+'
    · subst hx
      rfl
    · rw [List.cons_append, unsigned_of_head? (by simpa using hx),
        unsigned_of_head? (by simpa using hx), List.cons_append]

theorem begun_unsigned {p : Char → Bool} {front : List Char} (h : Begun p front) :
    Begun p (unsigned front) := by
  unfold unsigned
  split
  · next rest =>
    intro x hx
    cases rest with
    | nil => cases hx
    | cons y rest => exact h x (by rwa [List.getLast?_cons_cons])
  · exact h

namespace Padded

variable {s t : List Char}

theorem eq_nil_iff (h : Padded s t) : s = [] ↔ t = [] := by
  cases h with
  | same => rfl
  | zeros => simp

theorem mem_iff (h : Padded s t) {x : Char} (hx : isDigit x = false) : x ∈ s ↔ x ∈ t := by
  cases h with
  | same => rfl
  | zeros k =>
    have hzero : x ∉ List.replicate k '0' := fun hm => by
      rw [(List.mem_replicate.mp hm).2] at hx
      cases hx
    simp [hzero]

theorem startsWithDigit_eq (h : Padded s t) : startsWithDigit s = startsWithDigit t := by
  cases h with
  | same => rfl
  | @zeros front k c rest _ hc =>
    cases front with
    | nil => exact (startsWithDigit_replicate_zero hc k rest).trans (Eq.symm hc)
    | cons x front => rfl

/-- Zeros in front do not change the number. -/
theorem read?_eq (h : Padded s t) : read? s = read? t := by
  cases h with
  | same => rfl
  | @zeros front k c rest hfront hc =>
    have hplain : startsWithDigit (c :: rest) = true := hc
    rw [read?, read?, unsigned_append (startsWithDigit_replicate_zero hc k rest),
      unsigned_append hplain]
    rcases (begun_unsigned hfront).eq_nil_or with hnil | ⟨before, x, hlast, hx⟩
    · rw [hnil, List.nil_append, List.nil_append]
      simp [value_eq_valueFrom, valueFrom_replicate_zero, show isDigit '0' = true by decide]
    · -- with that in front neither text is a numeral
      have hx : isDigit x = false := by simpa using hx
      simp [hlast, hx]

/-- Both texts are cut alike at separators that are no digits. -/
theorem pieces {isSep : Char → Bool} (hsep : ∀ c, isDigit c = true → isSep c = false)
    (h : Padded s t) : List.Forall₂ Padded (pieces isSep s) (pieces isSep t) := by
  have hrefl : ∀ parts : List (List Char), List.Forall₂ Padded parts parts := fun parts =>
    List.forall₂_same.mpr fun part _ => .same part
  cases h with
  | same => exact hrefl _
  | @zeros front k c rest hfront hc =>
    obtain ⟨ps, l, hps⟩ := exists_pieces_eq_concat isSep front
    obtain ⟨r, qs, hqs⟩ := exists_pieces_eq_cons isSep rest
    have hplain : Pieces.pieces isSep (c :: rest) = (c :: r) :: qs := by
      rw [pieces_cons_free rest (hsep c hc), hqs]
      rfl
    have hzeros : Free isSep (List.replicate k '0') := fun x hx => by
      rw [(List.mem_replicate.mp hx).2]
      exact hsep '0' (by decide)
    have hpadded : Pieces.pieces isSep (List.replicate k '0' ++ c :: rest) =
        (List.replicate k '0' ++ c :: r) :: qs := by
      rw [pieces_free_append hzeros, hplain]
      rfl
    rw [pieces_append hps hpadded, pieces_append hps hplain]
    exact List.rel_append (hrefl ps)
      (.cons (.zeros k r (hfront.near (suffix_of_pieces hps)) hc) (hrefl qs))

theorem words {isSep : Char → Bool} (hsep : ∀ c, isDigit c = true → isSep c = false)
    (h : Padded s t) : List.Forall₂ Padded (words isSep s) (words isSep t) :=
  forall₂_words eq_nil_iff (h.pieces hsep)

end Padded

/-! ### Words of 32 bits -/

/-- The signed word with the given value, if there is one. -/
def word? (n : Int) : Option Int32 :=
  if Int32.minValue.toInt ≤ n ∧ n ≤ Int32.maxValue.toInt then some (.ofInt n) else none

/-- Puts a digit behind a number. A negative number grows downwards. -/
def push? (negative : Bool) (n : Int32) (c : Char) : Option Int32 := do
  let tens ← word? (n.toInt * 10)
  guard (isDigit c)
  word? (if negative then tens.toInt - digit c else tens.toInt + digit c)

/-- A number with or without a sign and with at least one digit. -/
def readWord? : List Char → Option Int32
  | [] | ['+'] | ['-'] => none
  | '+' :: digits => digits.foldlM (push? false) 0
  | '-' :: digits => digits.foldlM (push? true) 0
  | digits => digits.foldlM (push? false) 0

theorem word?_natCast (n : Nat) : word? n = if n ≤ bound then some (.ofNat n) else none := by
  have hmin : Int32.minValue.toInt = -2147483648 := rfl
  have hmax : Int32.maxValue.toInt = 2147483647 := rfl
  rw [word?, hmin, hmax, bound]
  split
  · rw [if_pos (by omega)]
    rfl
  · rw [if_neg (by omega)]

theorem toInt_ofNat {n : Nat} (h : n ≤ bound) : (Int32.ofNat n).toInt = n :=
  Int32.toInt_ofNat_of_lt (by rw [bound] at h; omega)

theorem push?_ofNat {n : Nat} (h : n ≤ bound) (c : Char) :
    push? false (.ofNat n) c =
      if isDigit c ∧ 10 * n + digit c ≤ bound then some (.ofNat (10 * n + digit c)) else none := by
  have htens : word? ((Int32.ofNat n).toInt * 10) = word? (10 * n : Nat) := by
    rw [toInt_ofNat h, Int.mul_comm]
    rfl
  rw [push?, htens, word?_natCast]
  by_cases hle : 10 * n ≤ bound
  · rw [if_pos hle, Option.bind_eq_bind, Option.bind_some, toInt_ofNat hle]
    cases hd : isDigit c with
    | true => simpa [guard] using word?_natCast (10 * n + digit c)
    | false =>
      simp only [guard, Bool.false_eq_true, if_false, false_and]
      rfl
  · rw [if_neg hle, if_neg (by omega)]
    rfl

/-- The number stays in its width up to the last digit, or it leaves the width and
further digits do not bring it back. -/
theorem foldlM_push? {n : Nat} (h : n ≤ bound) (digits : List Char) :
    digits.foldlM (push? false) (.ofNat n) =
      if digits.all isDigit ∧ valueFrom n digits ≤ bound then some (.ofNat (valueFrom n digits))
      else none := by
  induction digits generalizing n with
  | nil => simp [valueFrom, h]
  | cons c digits ih =>
    rw [List.foldlM_cons, push?_ofNat h, valueFrom_cons, Option.bind_eq_bind]
    by_cases hc : isDigit c ∧ 10 * n + digit c ≤ bound
    · rw [if_pos hc, Option.bind_some, ih hc.2]
      simp only [List.all_cons, hc.1, Bool.true_and]
    · rw [if_neg hc, Option.bind_none, if_neg]
      rintro ⟨hall, hle⟩
      rw [List.all_cons, Bool.and_eq_true] at hall
      exact hc ⟨hall.1, Nat.le_trans (le_valueFrom _ digits) hle⟩

/-- Without a minus sign the word is that of the number. -/
theorem readWord?_eq {text : List Char} (h : '-' ∉ text) :
    readWord? text = (read? text).map Int32.ofNat := by
  have hdigits : ∀ digits : List Char, digits ≠ [] →
      digits.foldlM (push? false) 0 =
        (if digits ≠ [] ∧ digits.all isDigit ∧ value digits ≤ bound then some (value digits)
          else none).map Int32.ofNat := by
    intro digits hne
    rw [show (0 : Int32) = Int32.ofNat 0 from rfl, foldlM_push? (by decide), value_eq_valueFrom]
    simp only [hne, ne_eq, not_false_eq_true, true_and]
    split <;> rfl
  unfold readWord?
  split
  · rfl
  · rfl
  · exact absurd (by simp) h
  · next digits hne => exact hdigits digits fun he => hne (by rw [he])
  · exact absurd (by simp) h
  · next hnil _ _ hplus _ =>
    have hu : unsigned text = text := by
      apply unsigned_of_head?
      intro hhead
      obtain ⟨rest, rfl⟩ := List.head?_eq_some_iff.mp hhead
      exact hplus rest rfl
    rw [read?, hu]
    exact hdigits text hnil

end WeeklyAgenda.Numeral

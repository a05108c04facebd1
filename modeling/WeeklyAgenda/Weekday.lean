/-! The seven days of the week, counted from Sunday, and the distance from one
day forward to another. -/

namespace WeeklyAgenda

inductive Weekday where
  | sun | mon | tue | wed | thu | fri | sat
  deriving DecidableEq, Repr

namespace Weekday

def all : List Weekday := [.sun, .mon, .tue, .wed, .thu, .fri, .sat]

/-- Days since the Sunday that opens the week. -/
def index : Weekday → Nat
  | .sun => 0
  | .mon => 1
  | .tue => 2
  | .wed => 3
  | .thu => 4
  | .fri => 5
  | .sat => 6

/-- The day that lies `n` days after a Sunday. -/
def ofIndex (n : Nat) : Weekday :=
  match n % 7 with
  | 0 => .sun
  | 1 => .mon
  | 2 => .tue
  | 3 => .wed
  | 4 => .thu
  | 5 => .fri
  | _ => .sat

/-- Days are numbered from 1 for Sunday to 7 for Saturday. -/
def number (d : Weekday) : Nat := d.index + 1

def ofNumber? (n : Nat) : Option Weekday :=
  all.find? fun d => d.number == n

def name : Weekday → String
  | .sun => "Sun"
  | .mon => "Mon"
  | .tue => "Tue"
  | .wed => "Wed"
  | .thu => "Thu"
  | .fri => "Fri"
  | .sat => "Sat"

def next (d : Weekday) : Weekday := ofIndex (d.index + 1)

/-- Days forward from `a` to `b`, passing into the next week if need be. -/
def stepsTo (a b : Weekday) : Nat := (b.index + 7 - a.index) % 7

theorem ofIndex_index (d : Weekday) : ofIndex d.index = d := by
  cases d <;> rfl

theorem index_ofIndex (n : Nat) : (ofIndex n).index = n % 7 := by
  have h : n % 7 < 7 := Nat.mod_lt _ (by decide)
  unfold ofIndex
  generalize n % 7 = k at h
  revert k
  decide

theorem ofNumber?_number (d : Weekday) : ofNumber? d.number = some d := by
  cases d <;> rfl

theorem index_inj {a b : Weekday} (h : a.index = b.index) : a = b := by
  rw [← ofIndex_index a, h, ofIndex_index]

end Weekday

end WeeklyAgenda

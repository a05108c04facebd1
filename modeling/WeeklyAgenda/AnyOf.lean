/-! Alternatives nested to any depth. Only the leaves of such a tree say
something; the tree holds where one of its leaves does. -/

namespace WeeklyAgenda

inductive AnyOf (α : Type) where
  | leaf (a : α)
  | among (choices : List (AnyOf α))

namespace AnyOf

variable {α : Type}

mutual

/-- The leaves from left to right. -/
def leaves : AnyOf α → List α
  | leaf a => [a]
  | among choices => leavesOf choices

def leavesOf : List (AnyOf α) → List α
  | [] => []
  | t :: rest => leaves t ++ leavesOf rest

end

mutual

/-- Whether some leaf satisfies `p`; none does if there is no leaf. -/
def someLeaf (p : α → Bool) : AnyOf α → Bool
  | leaf a => p a
  | among choices => someLeafOf p choices

def someLeafOf (p : α → Bool) : List (AnyOf α) → Bool
  | [] => false
  | t :: rest => someLeaf p t || someLeafOf p rest

end

mutual

def everyLeaf (p : α → Bool) : AnyOf α → Bool
  | leaf a => p a
  | among choices => everyLeafOf p choices

def everyLeafOf (p : α → Bool) : List (AnyOf α) → Bool
  | [] => true
  | t :: rest => everyLeaf p t && everyLeafOf p rest

end

mutual

/-- The texts of the alternatives with a comma between them. The nesting does
not show, and an empty list of alternatives leaves nothing. -/
def text (leafText : α → String) : AnyOf α → String
  | leaf a => leafText a
  | among choices => ", ".intercalate (textsOf leafText choices)

def textsOf (leafText : α → String) : List (AnyOf α) → List String
  | [] => []
  | t :: rest => text leafText t :: textsOf leafText rest

end

/-- A flat list of alternatives. -/
def ofList (as : List α) : AnyOf α := among (as.map leaf)

mutual

def decEq [DecidableEq α] : (s t : AnyOf α) → Decidable (s = t)
  | leaf a, leaf b => decidable_of_iff (a = b) (by simp)
  | leaf _, among _ => isFalse nofun
  | among _, leaf _ => isFalse nofun
  | among s, among t =>
    match decEqOf s t with
    | isTrue h => isTrue (h ▸ rfl)
    | isFalse h => isFalse fun e => h (among.inj e)

def decEqOf [DecidableEq α] : (s t : List (AnyOf α)) → Decidable (s = t)
  | [], [] => isTrue rfl
  | [], _ :: _ => isFalse nofun
  | _ :: _, [] => isFalse nofun
  | a :: s, b :: t =>
    match decEq a b with
    | isFalse h => isFalse fun e => h (List.cons.inj e).1
    | isTrue h =>
      match decEqOf s t with
      | isTrue k => isTrue (h ▸ k ▸ rfl)
      | isFalse k => isFalse fun e => k (List.cons.inj e).2

end

instance [DecidableEq α] : DecidableEq (AnyOf α) := decEq

mutual

theorem someLeaf_eq_any (p : α → Bool) : (t : AnyOf α) → someLeaf p t = t.leaves.any p
  | leaf a => by simp [someLeaf, leaves]
  | among choices => by simp [someLeaf, leaves, someLeafOf_eq_any p choices]

theorem someLeafOf_eq_any (p : α → Bool) :
    (ts : List (AnyOf α)) → someLeafOf p ts = (leavesOf ts).any p
  | [] => rfl
  | t :: rest => by simp [someLeafOf, leavesOf, someLeaf_eq_any p t, someLeafOf_eq_any p rest]

end

mutual

theorem everyLeaf_eq_all (p : α → Bool) : (t : AnyOf α) → everyLeaf p t = t.leaves.all p
  | leaf a => by simp [everyLeaf, leaves]
  | among choices => by simp [everyLeaf, leaves, everyLeafOf_eq_all p choices]

theorem everyLeafOf_eq_all (p : α → Bool) :
    (ts : List (AnyOf α)) → everyLeafOf p ts = (leavesOf ts).all p
  | [] => rfl
  | t :: rest => by simp [everyLeafOf, leavesOf, everyLeaf_eq_all p t, everyLeafOf_eq_all p rest]

end

theorem leavesOf_map_leaf (as : List α) : leavesOf (as.map leaf) = as := by
  induction as with
  | nil => rfl
  | cons a as ih => simp [leavesOf, leaves, ih]

@[simp]
theorem leaves_ofList (as : List α) : (ofList as).leaves = as := leavesOf_map_leaf as

end AnyOf

end WeeklyAgenda

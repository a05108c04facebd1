import Mathlib.Logic.Relation
import WeeklyAgenda.Proofs.ActiveLines

/-! The days at which alternatives hold, however they are nested. They are asked in
turn, and a span that wraps is asked as one up to Saturday and one from Sunday, which
do not wrap themselves, so that asking comes to an end. The answer is that of the
leaves: one of them is the day, or a span with the day on the way from its first day
forward to its last. The nesting, the order and the number of the leaves make no
difference. -/

namespace WeeklyAgenda

/-! ### Leaves -/

namespace AnyOf

variable {α : Type} {s t : AnyOf α}

theorem leaves_among (ts : List (AnyOf α)) : (among ts).leaves = ts.flatMap leaves := by
  rw [leaves]
  induction ts with
  | nil => rfl
  | cons t ts ih => rw [leavesOf, ih, List.flatMap_cons]

theorem someLeaf_eq_true_iff {p : α → Bool} :
    someLeaf p t = true ↔ ∃ a ∈ t.leaves, p a = true := by
  rw [someLeaf_eq_any, List.any_eq_true]

theorem someLeaf_congr (h : ∀ a, a ∈ s.leaves ↔ a ∈ t.leaves) (p : α → Bool) :
    someLeaf p s = someLeaf p t := by
  rw [Bool.eq_iff_iff, someLeaf_eq_true_iff, someLeaf_eq_true_iff]
  simp only [h]

/-- One change of the nesting, the order or the number of alternatives, at any depth. -/
inductive Rearranges : AnyOf α → AnyOf α → Prop
  /-- Alternatives within alternatives are put in their place. -/
  | flatten (front inner back : List (AnyOf α)) :
      Rearranges (among (front ++ among inner :: back)) (among (front ++ inner ++ back))
  | reorder {ts us : List (AnyOf α)} (perm : ts.Perm us) : Rearranges (among ts) (among us)
  | duplicate (front : List (AnyOf α)) (t : AnyOf α) (back : List (AnyOf α)) :
      Rearranges (among (front ++ t :: back)) (among (front ++ t :: t :: back))
  | dropEmpty (front back : List (AnyOf α)) :
      Rearranges (among (front ++ among [] :: back)) (among (front ++ back))
  | inside (front : List (AnyOf α)) {t u : AnyOf α} (back : List (AnyOf α))
      (change : Rearranges t u) :
      Rearranges (among (front ++ t :: back)) (among (front ++ u :: back))

theorem Rearranges.mem_leaves_iff (h : Rearranges s t) (a : α) :
    a ∈ s.leaves ↔ a ∈ t.leaves := by
  induction h with
  | flatten front inner back =>
    simp only [leaves_among, List.flatMap_append, List.flatMap_cons, List.append_assoc]
  | reorder perm => simp only [leaves_among, List.mem_flatMap, perm.mem_iff]
  | duplicate front t back =>
    simp only [leaves_among, List.flatMap_append, List.flatMap_cons, List.mem_append, or_self_left]
  | dropEmpty front back =>
    simp only [leaves_among, List.flatMap_append, List.flatMap_cons, List.flatMap_nil,
      List.nil_append]
  | inside front back change ih =>
    simp only [leaves_among, List.flatMap_append, List.flatMap_cons, List.mem_append, ih]

/-- Changes and their reversals, as many as one likes. -/
theorem mem_leaves_iff_of_rearranged (h : Relation.EqvGen Rearranges s t) (a : α) :
    a ∈ s.leaves ↔ a ∈ t.leaves := by
  induction h with
  | rel _ _ change => exact change.mem_leaves_iff a
  | refl => rfl
  | symm _ _ _ ih => exact ih.symm
  | trans _ _ _ _ _ ih ih' => exact ih.trans ih'

end AnyOf

/-! ### Spans -/

namespace DayRule

theorem wraps_span_sat (first : Weekday) : (span first .sat).wraps = false := by
  cases first <;> rfl

theorem wraps_sun_span (last : Weekday) : (span .sun last).wraps = false := by
  cases last <;> rfl

theorem holds_on_eq (day d : Weekday) : (on day).holds d = decide (day = d) := by
  rw [Bool.eq_iff_iff, holds_on, decide_eq_true_iff]

theorem holds_of_not_wraps {first last : Weekday} (h : (span first last).wraps = false)
    (d : Weekday) :
    (span first last).holds d =
      decide (first.number ≤ d.number ∧ d.number ≤ last.number) := by
  simp [holds, stretches, h, Weekday.number]

theorem holds_of_wraps {first last : Weekday} (h : (span first last).wraps = true)
    (d : Weekday) :
    (span first last).holds d =
      ((span first .sat).holds d || (span .sun last).holds d) := by
  simp [holds, stretches, h, wraps_span_sat, wraps_sun_span]

theorem holds_iff {r : DayRule} {d : Weekday} :
    r.holds d = true ↔ r = .on d ∨ ∃ a b, r = .span a b ∧ a.stepsTo d ≤ a.stepsTo b := by
  cases r with
  | on day => simp [holds_on]
  | span first last => simp [holds_span]

end DayRule

/-! ### Asking for a day -/

namespace DaySet

mutual

/-- Asking a tree for a day ends with an answer. Alternatives are asked up to the first
that holds, and so are the two parts of a span that wraps. -/
inductive Evaluates (d : Weekday) : DaySet → Bool → Prop
  | on (day : Weekday) : Evaluates d (.leaf (.on day)) (decide (day = d))
  | within {first last : Weekday} (straight : wraps (.leaf (.span first last)) = false) :
      Evaluates d (.leaf (.span first last))
        (decide (first.number ≤ d.number ∧ d.number ≤ last.number))
  | early {first last : Weekday} (turns : wraps (.leaf (.span first last)) = true)
      (hit : Evaluates d (.leaf (.span first .sat)) true) :
      Evaluates d (.leaf (.span first last)) true
  | late {first last : Weekday} {b : Bool} (turns : wraps (.leaf (.span first last)) = true)
      (miss : Evaluates d (.leaf (.span first .sat)) false)
      (next : Evaluates d (.leaf (.span .sun last)) b) :
      Evaluates d (.leaf (.span first last)) b
  | among {choices : List DaySet} {b : Bool} (inTurn : EvaluatesInTurn d choices b) :
      Evaluates d (.among choices) b

inductive EvaluatesInTurn (d : Weekday) : List DaySet → Bool → Prop
  | none : EvaluatesInTurn d [] false
  | hit {s : DaySet} {rest : List DaySet} (hit : Evaluates d s true) :
      EvaluatesInTurn d (s :: rest) true
  | miss {s : DaySet} {rest : List DaySet} {b : Bool} (miss : Evaluates d s false)
      (next : EvaluatesInTurn d rest b) : EvaluatesInTurn d (s :: rest) b

end

variable {d : Weekday}

theorem holds_leaf (r : DayRule) : holds (.leaf r) d = r.holds d := rfl

theorem holds_among_cons (s : DaySet) (rest : List DaySet) :
    holds (.among (s :: rest)) d = (s.holds d || holds (.among rest) d) := rfl

mutual

theorem Evaluates.holds_eq {s : DaySet} {b : Bool} : Evaluates d s b → s.holds d = b
  | .on day => DayRule.holds_on_eq day d
  | .within straight => DayRule.holds_of_not_wraps straight d
  | .early turns hit => by
    have hfirst := hit.holds_eq
    rw [holds_leaf] at hfirst ⊢
    rw [DayRule.holds_of_wraps turns, hfirst, Bool.true_or]
  | .late turns miss next => by
    have hfirst := miss.holds_eq
    have hlast := next.holds_eq
    rw [holds_leaf] at hfirst hlast ⊢
    rw [DayRule.holds_of_wraps turns, hfirst, hlast, Bool.false_or]
  | .among inTurn => inTurn.holds_eq

theorem EvaluatesInTurn.holds_eq {choices : List DaySet} {b : Bool} :
    EvaluatesInTurn d choices b → holds (.among choices) d = b
  | .none => rfl
  | .hit hit => by rw [holds_among_cons, hit.holds_eq, Bool.true_or]
  | .miss miss next => by
    rw [holds_among_cons, miss.holds_eq, next.holds_eq, Bool.false_or]

end

/-- A span that does not wrap is answered at once. -/
theorem evaluates_straight {first last : Weekday}
    (h : wraps (.leaf (.span first last)) = false) :
    Evaluates d (.leaf (.span first last)) ((DayRule.span first last).holds d) := by
  rw [DayRule.holds_of_not_wraps h]
  exact .within h

theorem evaluates_leaf (r : DayRule) : Evaluates d (.leaf r) (r.holds d) := by
  cases r with
  | on day =>
    rw [DayRule.holds_on_eq]
    exact .on day
  | span first last =>
    cases hw : wraps (.leaf (.span first last)) with
    | false => exact evaluates_straight hw
    | true =>
      have hfirst := @evaluates_straight d first .sat (DayRule.wraps_span_sat first)
      have hlast := @evaluates_straight d .sun last (DayRule.wraps_sun_span last)
      rw [DayRule.holds_of_wraps hw]
      -- the part from Sunday is asked only if the other does not hold
      cases hd : (DayRule.span first .sat).holds d with
      | true => exact .early hw (hd ▸ hfirst)
      | false => exact .late hw (hd ▸ hfirst) hlast

mutual

/-- Asking comes to an end on each tree. -/
theorem evaluates_holds : (s : DaySet) → Evaluates d s (s.holds d)
  | .leaf r => evaluates_leaf r
  | .among choices => .among (evaluatesInTurn_holds choices)

theorem evaluatesInTurn_holds : (choices : List DaySet) →
    EvaluatesInTurn d choices (holds (.among choices) d)
  | [] => .none
  | s :: rest => by
    have hs := evaluates_holds s
    have hrest := evaluatesInTurn_holds rest
    rw [holds_among_cons]
    cases h : s.holds d with
    | true => exact .hit (h ▸ hs)
    | false => exact .miss (h ▸ hs) hrest

end

/-- Each question has one answer. -/
theorem evaluates_iff {s : DaySet} {b : Bool} : Evaluates d s b ↔ s.holds d = b := by
  constructor
  · exact Evaluates.holds_eq
  · rintro rfl
    exact evaluates_holds s

/-! ### The answer -/

theorem holds_iff {s : DaySet} :
    s.holds d = true ↔
      ∃ r ∈ s.leaves, r = .on d ∨ ∃ a b, r = .span a b ∧ a.stepsTo d ≤ a.stepsTo b := by
  simp only [holds, AnyOf.someLeaf_eq_true_iff, DayRule.holds_iff]

theorem holds_congr {s t : DaySet} (h : ∀ r, r ∈ s.leaves ↔ r ∈ t.leaves) (d : Weekday) :
    s.holds d = t.holds d := AnyOf.someLeaf_congr h _

/-- Asking a tree for a day ends with one answer: whether a leaf is the day, or a span
with no more days forward from its first to the given one than to its last. The spans
asked for one that wraps do not wrap. Trees with the same leaves give the same answers,
so that no rearrangement changes one. -/
theorem holds_by_leaves (s : DaySet) (d : Weekday) :
    (∀ answer, Evaluates d s answer ↔ s.holds d = answer) ∧
    (s.holds d = true ↔
      ∃ r ∈ s.leaves, r = .on d ∨ ∃ a b, r = .span a b ∧ a.stepsTo d ≤ a.stepsTo b) ∧
    (∀ first last, wraps (.leaf (.span first .sat)) = false ∧
      wraps (.leaf (.span .sun last)) = false) ∧
    (∀ t : DaySet, (∀ r, r ∈ s.leaves ↔ r ∈ t.leaves) → s.holds d = t.holds d) ∧
    ∀ t : DaySet, Relation.EqvGen AnyOf.Rearranges s t → s.holds d = t.holds d := by
  refine ⟨fun answer => evaluates_iff, holds_iff, fun first last => ⟨?upTo, ?since⟩,
    fun t h => holds_congr h d, fun t h => ?rearranged⟩
  case upTo => exact DayRule.wraps_span_sat first
  case since => exact DayRule.wraps_sun_span last
  case rearranged => exact holds_congr (AnyOf.mem_leaves_iff_of_rearranged h) d

-- An empty list is dropped, a nested one put in its place, the two rules are turned
-- around, and the single day is repeated.
theorem holds_by_leaves_rearranged :
    Relation.EqvGen AnyOf.Rearranges
        (.among [.among [], .leaf (.span .fri .mon), .among [.leaf (.on .wed)]] : DaySet)
        (.among [.leaf (.on .wed), .leaf (.on .wed), .leaf (.span .fri .mon)]) ∧
      Evaluates .sun (.among [.among [], .leaf (.span .fri .mon), .among [.leaf (.on .wed)]]) true ∧
      holds (.among [.leaf (.on .wed), .leaf (.on .wed), .leaf (.span .fri .mon)]) .sun = true := by
  have hrearranged : ∀ x y : DaySet, Relation.EqvGen AnyOf.Rearranges
      (.among [.among [], x, .among [y]]) (.among [y, y, x]) := by
    intro x y
    have hdrop := AnyOf.Rearranges.dropEmpty [] [x, .among [y]]
    have hflat := AnyOf.Rearranges.flatten [x] [y] []
    have hturn := AnyOf.Rearranges.reorder (List.Perm.swap y x [])
    have hrepeat := AnyOf.Rearranges.duplicate [] y [x]
    exact .trans _ _ _ (.rel _ _ hdrop)
      (.trans _ _ _ (.rel _ _ hflat) (.trans _ _ _ (.rel _ _ hturn) (.rel _ _ hrepeat)))
  obtain ⟨heval, hleaf, -, -, hkeep⟩ := holds_by_leaves
    (.among [.among [], .leaf (.span .fri .mon), .among [.leaf (.on .wed)]]) .sun
  have hs := hleaf.mpr ⟨.span .fri .mon, by decide, .inr ⟨.fri, .mon, rfl, by decide⟩⟩
  exact ⟨hrearranged _ _, (heval true).mpr hs, (hkeep _ (hrearranged _ _)).symm.trans hs⟩

end DaySet

end WeeklyAgenda

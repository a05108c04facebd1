import Mathlib
import WeeklyAgenda.Proofs.WrittenLines

/-! What the text of a reminder tells. The nesting of alternatives does not show
in it, but the label and the leaves of every window do: the last bracket ends the
label, and behind it each window has its words between two markers. -/

namespace WeeklyAgenda

open Line Pieces

/-! ### Figures -/

theorem Numeral.isDigit_of_mem_toString {n : Nat} {c : Char} (h : c ∈ (toString n).toList) :
    isDigit c = true := by
  rw [Nat.toString_eq_repr, Nat.toList_repr] at h
  have hdigit : c.isDigit = true := Nat.isDigit_of_mem_toDigits (by decide) (by decide) h
  simpa [isDigit, Char.isDigit, Char.le_def] using hdigit

theorem Numeral.toString_ne_nil (n : Nat) : (toString n).toList ≠ [] := by
  rw [Nat.toString_eq_repr, Nat.toList_repr]
  exact Nat.toDigits_ne_nil

/-- A number is written with digits. -/
theorem Numeral.free_toString {isSep : Char → Bool}
    (hdigit : ∀ c, Numeral.isDigit c = true → isSep c = false) (n : Nat) :
    Free isSep (toString n).toList :=
  fun c hc => hdigit c (isDigit_of_mem_toString hc)

/-- Two numbers with a hyphen between them can be told apart. -/
theorem Numeral.toString_pair_inj {a b m n : Nat}
    (h : (toString a).toList ++ '-' :: (toString b).toList =
      (toString m).toList ++ '-' :: (toString n).toList) : a = m ∧ b = n := by
  have hfree : ∀ n : Nat, Free (· == '-') (toString n).toList :=
    Numeral.free_toString fun c hc => ne_of_isDigit hc (by decide)
  have hended : ∀ n : Nat, Ended (· == '-') ('-' :: (toString n).toList) :=
    fun n => ended_cons.mpr (by decide)
  obtain ⟨hfirst, htail⟩ := Free.append_inj (hfree a) (hfree m) (hended b) (hended n) h
  exact ⟨Nat.repr_injective (String.toList_inj.mp hfirst),
    Nat.repr_injective (String.toList_inj.mp (List.cons.inj htail).2)⟩

theorem Weekday.number_inj {a b : Weekday} (h : a.number = b.number) : a = b :=
  index_inj (Nat.succ.inj h)

namespace DayRule

theorem toList_text_span (a b : Weekday) :
    (span a b).text.toList = (toString a.number).toList ++ '-' :: (toString b.number).toList := by
  simp [text]

theorem free_text {isSep : Char → Bool} (hdigit : ∀ c, Numeral.isDigit c = true → isSep c = false)
    (hhyphen : isSep '-' = false) (r : DayRule) : Free isSep r.text.toList := by
  cases r with
  | on d => exact Numeral.free_toString hdigit _
  | span a b =>
    rw [toList_text_span]
    exact (Numeral.free_toString hdigit _).append_cons hhyphen (Numeral.free_toString hdigit _)

theorem toList_text_ne_nil (r : DayRule) : r.text.toList ≠ [] := by
  cases r with
  | on d => exact Numeral.toString_ne_nil _
  | span a b => simp [toList_text_span]

theorem text_inj {r s : DayRule} (h : r.text.toList = s.text.toList) : r = s := by
  have hne : ∀ d a b : Weekday, (on d).text.toList ≠ (span a b).text.toList := by
    intro d a b heq
    have hfree : Free (· == '-') (on d).text.toList :=
      Numeral.free_toString (fun c hc => Numeral.ne_of_isDigit hc (by decide)) _
    rw [heq, toList_text_span] at hfree
    exact free_beq.mp hfree (by simp)
  cases r with
  | on d =>
    cases s with
    | on e =>
      have hnumber : d.number = e.number := Nat.repr_injective (String.toList_inj.mp h)
      rw [Weekday.number_inj hnumber]
    | span a b => exact absurd h (hne d a b)
  | span a b =>
    cases s with
    | on e => exact absurd h.symm (hne e a b)
    | span a' b' =>
      rw [toList_text_span, toList_text_span] at h
      obtain ⟨hfirst, hlast⟩ := Numeral.toString_pair_inj h
      rw [Weekday.number_inj hfirst, Weekday.number_inj hlast]

end DayRule

namespace TimeRange

theorem toList_text (r : TimeRange) :
    r.text.toList =
      (toString r.first.minutes).toList ++ '-' :: (toString r.last.minutes).toList := by
  simp [text]

theorem free_text {isSep : Char → Bool} (hdigit : ∀ c, Numeral.isDigit c = true → isSep c = false)
    (hhyphen : isSep '-' = false) (r : TimeRange) : Free isSep r.text.toList := by
  rw [toList_text]
  exact (Numeral.free_toString hdigit _).append_cons hhyphen (Numeral.free_toString hdigit _)

theorem text_inj {r s : TimeRange} (h : r.text.toList = s.text.toList) : r = s := by
  rw [toList_text, toList_text] at h
  obtain ⟨hfirst, hlast⟩ := Numeral.toString_pair_inj h
  cases r
  cases s
  rw [mk.injEq]
  exact ⟨ClockTime.ext hfirst, ClockTime.ext hlast⟩

end TimeRange

/-! ### Alternatives -/

namespace AnyOf

variable {α : Type} {leafText : α → String} {isSep : Char → Bool}

mutual

theorem free_text (hgap : Free isSep ", ".toList) (h : ∀ a, Free isSep (leafText a).toList) :
    (t : AnyOf α) → Free isSep (text leafText t).toList
  | leaf a => h a
  | among choices => by
    rw [text, String.toList_intercalate]
    exact hgap.intercalate (free_textsOf hgap h choices)

theorem free_textsOf (hgap : Free isSep ", ".toList) (h : ∀ a, Free isSep (leafText a).toList) :
    (ts : List (AnyOf α)) → ∀ u ∈ (textsOf leafText ts).map String.toList, Free isSep u
  | [] => by simp [textsOf]
  | t :: rest => by
    rw [textsOf, List.map_cons, List.forall_mem_cons]
    exact ⟨free_text hgap h t, free_textsOf hgap h rest⟩

end

mutual

/-- The words are the texts of the leaves; empty alternatives add none. -/
theorem words_text (h : ∀ a, (leafText a).toList ≠ [] ∧ Free isSeparator (leafText a).toList) :
    (t : AnyOf α) → words isSeparator (text leafText t).toList =
      t.leaves.map fun a => (leafText a).toList
  | leaf a => words_of_free (h a).2 (h a).1
  | among choices => by
    rw [text, String.toList_intercalate, words_intercalate (by simp) (by decide)]
    exact flatMap_words_textsOf h choices

theorem flatMap_words_textsOf
    (h : ∀ a, (leafText a).toList ≠ [] ∧ Free isSeparator (leafText a).toList) :
    (ts : List (AnyOf α)) → ((textsOf leafText ts).map String.toList).flatMap (words isSeparator) =
      (leavesOf ts).map fun a => (leafText a).toList
  | [] => rfl
  | t :: rest => by
    rw [textsOf, List.map_cons, List.flatMap_cons, leavesOf, List.map_append, words_text h t,
      flatMap_words_textsOf h rest]

end

end AnyOf

/-! ### Windows -/

namespace Window

/-- The leaves of both windows are the same in the same order. -/
def SameLeaves (v w : Window) : Prop :=
  v.days.leaves = w.days.leaves ∧ v.times.leaves = w.times.leaves

/-- The words of a window: those of the days and of the times, each behind a
marker. -/
def textWords (w : Window) : List (List Char) :=
  "weekday:".toList :: ((w.days.leaves.map fun r => r.text.toList) ++
    "time:".toList :: w.times.leaves.map fun r => r.text.toList)

/-- Only markers have a colon. -/
def isMarker (word : List Char) : Bool := ':' ∈ word

theorem free_isMarker {α : Type} {leafText : α → String}
    (h : ∀ a, Free (· == ':') (leafText a).toList) (leaves : List α) :
    Free isMarker (leaves.map fun a => (leafText a).toList) := by
  intro word hword
  obtain ⟨a, -, rfl⟩ := List.mem_map.mp hword
  exact decide_eq_false (free_beq.mp (h a))

theorem toList_text (w : Window) :
    w.text.toList = "weekday:".toList ++ ' ' :: (w.days.text.toList ++
      ' ' :: ("time:".toList ++ ' ' :: w.times.text.toList)) := by
  simp [text]

theorem words_text (w : Window) : Pieces.words isSeparator w.text.toList = w.textWords := by
  have hdigit : ∀ c, Numeral.isDigit c = true → isSeparator c = false := fun c hc =>
    (Bool.or_eq_false_iff.mp (isWordEnd_of_isDigit hc)).1
  have hdays : Pieces.words isSeparator w.days.text.toList =
      w.days.leaves.map fun r => r.text.toList :=
    AnyOf.words_text (fun r => ⟨r.toList_text_ne_nil, r.free_text hdigit (by decide)⟩) w.days
  have htimes : Pieces.words isSeparator w.times.text.toList =
      w.times.leaves.map fun r => r.text.toList :=
    AnyOf.words_text (fun r => ⟨by simp [r.toList_text], r.free_text hdigit (by decide)⟩) w.times
  have hweekday : Pieces.words isSeparator "weekday:".toList = ["weekday:".toList] := by decide
  have htime : Pieces.words isSeparator "time:".toList = ["time:".toList] := by decide
  rw [toList_text, words_append_sep _ _ (by decide), words_append_sep _ _ (by decide),
    words_append_sep _ _ (by decide), hweekday, hdays, htime, htimes]
  rfl

theorem ended_flatMap_textWords (ws : List Window) : Ended isMarker (ws.flatMap textWords) := by
  cases ws with
  | nil => exact ended_nil
  | cons w ws => exact ended_cons.mpr (by decide)

/-- The words of a window end where the next window or nothing follows. -/
theorem textWords_append_inj {v w : Window} {rest rest' : List (List Char)}
    (hr : Ended isMarker rest) (hr' : Ended isMarker rest')
    (h : v.textWords ++ rest = w.textWords ++ rest') : v.SameLeaves w ∧ rest = rest' := by
  have hcolon : ∀ c, Numeral.isDigit c = true → (c == ':') = false :=
    fun c hc => Numeral.ne_of_isDigit hc (by decide)
  have hdays : ∀ rs : List DayRule, Free isMarker (rs.map fun r => r.text.toList) :=
    free_isMarker fun r => r.free_text hcolon (by decide)
  have htimes : ∀ rs : List TimeRange, Free isMarker (rs.map fun r => r.text.toList) :=
    free_isMarker fun r => r.free_text hcolon (by decide)
  have htime : ∀ rest, Ended isMarker ("time:".toList :: rest) :=
    fun rest => ended_cons.mpr (by decide)
  simp only [textWords, List.cons_append, List.append_assoc, List.cons.injEq, true_and] at h
  obtain ⟨hd, htail⟩ := Free.append_inj (hdays _) (hdays _) (htime _) (htime _) h
  obtain ⟨ht, hrest⟩ := Free.append_inj (htimes _) (htimes _) hr hr' (List.cons.inj htail).2
  exact ⟨⟨List.map_injective_iff.mpr (fun _ _ => DayRule.text_inj) hd,
    List.map_injective_iff.mpr (fun _ _ => TimeRange.text_inj) ht⟩, hrest⟩

theorem forall₂_of_flatMap_textWords {vs ws : List Window}
    (h : vs.flatMap textWords = ws.flatMap textWords) : List.Forall₂ SameLeaves vs ws := by
  induction vs generalizing ws with
  | nil =>
    cases ws with
    | nil => exact .nil
    | cons w ws => simp [textWords] at h
  | cons v vs ih =>
    cases ws with
    | nil => simp [textWords] at h
    | cons w ws =>
      rw [List.flatMap_cons, List.flatMap_cons] at h
      obtain ⟨hvw, hrest⟩ :=
        textWords_append_inj (ended_flatMap_textWords vs) (ended_flatMap_textWords ws) h
      exact .cons hvw (ih hrest)

theorem SameLeaves.holds_eq {v w : Window} (h : v.SameLeaves w) (m : Moment) :
    v.holds m = w.holds m := by
  simp only [holds, DaySet.holds, TimeSet.holds, AnyOf.someLeaf_eq_any, h.1, h.2]

theorem SameLeaves.eq_of_isFlat {v w : Window} (h : v.SameLeaves w) (hv : v.IsFlat)
    (hw : w.IsFlat) : v = w := by
  obtain ⟨days, times⟩ := v
  obtain ⟨days', times'⟩ := w
  obtain ⟨⟨as, -, rfl⟩, ⟨bs, -, rfl⟩⟩ := hv
  obtain ⟨⟨cs, -, rfl⟩, ⟨ds, -, rfl⟩⟩ := hw
  simp only [SameLeaves, AnyOf.leaves_ofList] at h
  rw [h.1, h.2]

end Window

/-! ### Schedules -/

namespace Schedule

theorem words_text (s : Schedule) :
    words isSeparator s.text.toList = s.windows.flatMap Window.textWords := by
  rw [text, String.toList_intercalate, words_intercalate (by simp) (by decide), List.map_map,
    List.flatMap_map]
  simp only [Function.comp_apply, Window.words_text]

/-- No bracket opens in the text of a schedule. -/
theorem free_text (s : Schedule) : Free (· == '(') s.text.toList := by
  have hbracket : ∀ c, Numeral.isDigit c = true → (c == '(') = false :=
    fun c hc => Numeral.ne_of_isDigit hc (by decide)
  have hwindow : ∀ w : Window, Free (· == '(') w.text.toList := by
    intro w
    have hdays : Free (· == '(') w.days.text.toList :=
      AnyOf.free_text (by decide) (fun r => r.free_text hbracket (by decide)) w.days
    have htimes : Free (· == '(') w.times.text.toList :=
      AnyOf.free_text (by decide) (fun r => r.free_text hbracket (by decide)) w.times
    rw [Window.text]
    simp only [String.toList_append]
    exact (((Free.append (by decide) hdays).append (by decide)).append htimes)
  rw [text, String.toList_intercalate]
  apply Free.intercalate (by decide)
  intro t ht
  obtain ⟨u, hu, rfl⟩ := List.mem_map.mp ht
  obtain ⟨w, -, rfl⟩ := List.mem_map.mp hu
  exact hwindow w

theorem holds_eq_of_forall₂ {vs ws : List Window} (h : List.Forall₂ Window.SameLeaves vs ws)
    (m : Moment) : Schedule.holds ⟨vs⟩ m = Schedule.holds ⟨ws⟩ m := by
  unfold holds
  dsimp only
  induction h with
  | nil => rfl
  | cons hvw _ ih => rw [List.any_cons, List.any_cons, hvw.holds_eq, ih]

theorem eq_of_forall₂ {vs ws : List Window} (h : List.Forall₂ Window.SameLeaves vs ws)
    (hv : ∀ v ∈ vs, v.IsFlat) (hw : ∀ w ∈ ws, w.IsFlat) : vs = ws := by
  induction h with
  | nil => rfl
  | @cons v w vs ws hvw _ ih =>
    rw [hvw.eq_of_isFlat (hv v (by simp)) (hw w (by simp)),
      ih (fun v' hv' => hv v' (by simp [hv'])) fun w' hw' => hw w' (by simp [hw'])]

end Schedule

/-! ### Reminders -/

namespace Reminder

theorem toList_text (r : Reminder) :
    r.text.toList = r.label.toList ++ ' ' :: '(' :: r.schedule.text.toList ++ [')'] := by
  simp [text]

/-- The last opening bracket of the text is where the label ends. -/
theorem label_and_text_of_text {r s : Reminder} (h : r.text = s.text) :
    r.label = s.label ∧ r.schedule.text.toList = s.schedule.text.toList := by
  have hlist := congrArg String.toList h
  rw [toList_text, toList_text] at hlist
  have hopen := congrArg List.reverse (List.append_cancel_right hlist)
  have hfree : ∀ r : Reminder, Free (· == '(') r.schedule.text.toList.reverse :=
    fun r c hc => r.schedule.free_text c (List.mem_reverse.mp hc)
  have hended : ∀ r : Reminder, Ended (· == '(') ('(' :: ' ' :: r.label.toList.reverse) :=
    fun r => ended_cons.mpr (by decide)
  simp only [List.reverse_append, List.reverse_cons, List.append_assoc, List.cons_append,
    List.nil_append] at hopen
  obtain ⟨hschedule, hlabel⟩ := Free.append_inj (hfree r) (hfree s) (hended r) (hended s) hopen
  simp only [List.cons.injEq, List.reverse_inj, true_and, String.toList_inj] at hlabel
  exact ⟨hlabel, List.reverse_inj.mp hschedule⟩

/-- Reminders with one text have the label and the leaves in common, are active at
the same moments and, if both were read from lines, are equal. -/
theorem eq_leaves_of_text (r s : Reminder) (h : r.text = s.text) :
    r.label = s.label ∧
    List.Forall₂ Window.SameLeaves r.schedule.windows s.schedule.windows ∧
    (∀ m, r.activeAt m = s.activeAt m) ∧
    (∀ a b, parse a = .ok r → parse b = .ok s → r = s) := by
  obtain ⟨hlabel, htext⟩ := label_and_text_of_text h
  have hwords := congrArg (words isSeparator) htext
  rw [Schedule.words_text, Schedule.words_text] at hwords
  have hwindows := Window.forall₂_of_flatMap_textWords hwords
  refine ⟨hlabel, hwindows, Schedule.holds_eq_of_forall₂ hwindows, ?_⟩
  intro a b ha hb
  have heq := Schedule.eq_of_forall₂ hwindows (isPlain_of_parse ha).flat (isPlain_of_parse hb).flat
  obtain ⟨label, ⟨ws⟩⟩ := r
  obtain ⟨label', ⟨ws'⟩⟩ := s
  rw [show label = label' from hlabel, show ws = ws' from heq]

def flatCall : Reminder :=
  ⟨"call (1: 0-1)",
    ⟨[⟨.ofList [.on .mon, .span .fri .sun], .ofList [⟨.midnight, .last⟩, ⟨.last, .last⟩]⟩]⟩⟩

/-- The same leaves under alternatives within alternatives. -/
def nestedCall : Reminder :=
  ⟨"call (1: 0-1)",
    ⟨[⟨.among [.ofList [.on .mon, .span .fri .sun]],
      .among [.leaf ⟨.midnight, .last⟩, .among [.leaf ⟨.last, .last⟩]]⟩]⟩⟩

theorem eq_leaves_of_text_call :
    (nestedCall.text = flatCall.text ∧ nestedCall ≠ flatCall ∧
      nestedCall.label = flatCall.label ∧
      List.Forall₂ Window.SameLeaves nestedCall.schedule.windows flatCall.schedule.windows ∧
      ∀ m, nestedCall.activeAt m = flatCall.activeAt m) ∧
    ∃ r s, parse "call; mon 9-10" = .ok r ∧ parse " call;;T2,x,9:00-10:00;" = .ok s ∧
      r.text = s.text ∧ r = s := by
  have htext : nestedCall.text = flatCall.text := by decide
  obtain ⟨hlabel, hwindows, hactive, -⟩ := eq_leaves_of_text nestedCall flatCall htext
  refine ⟨⟨htext, by decide, hlabel, hwindows, hactive⟩, ?_⟩
  have hfirst : parse "call; mon 9-10" =
      .ok ⟨"call", ⟨[⟨.ofList [.on .mon], .ofList [⟨⟨540, by decide⟩, ⟨600, by decide⟩⟩]⟩]⟩⟩ := by
    decide +kernel
  have hsecond : parse " call;;T2,x,9:00-10:00;" =
      .ok ⟨"call", ⟨[⟨.ofList [.on .mon], .ofList [⟨⟨540, by decide⟩, ⟨600, by decide⟩⟩]⟩]⟩⟩ := by
    decide +kernel
  exact ⟨_, _, hfirst, hsecond, rfl, (eq_leaves_of_text _ _ rfl).2.2.2 _ _ hfirst hsecond⟩

end Reminder

end WeeklyAgenda

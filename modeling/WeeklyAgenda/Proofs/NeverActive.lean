import WeeklyAgenda.Proofs.DaySets
import WeeklyAgenda.Proofs.WrittenLines

/-! Reminders that are never active. A time range that starts after its end holds at no
time, and alternatives hold at no time if all their ranges are of this kind and only
then. Each day or span of days holds on some day, so that a window that was read from a
line holds at some moment unless its times never do. -/

namespace WeeklyAgenda

/-! ### Alternatives -/

namespace AnyOf

variable {α β : Type}

theorem everyLeaf_eq_true_iff {p : α → Bool} {s : AnyOf α} :
    everyLeaf p s = true ↔ ∀ a ∈ s.leaves, p a = true := by
  rw [everyLeaf_eq_all, List.all_eq_true]

theorem everyLeaf_eq_false_iff {p : α → Bool} {s : AnyOf α} :
    everyLeaf p s = false ↔ ∃ a ∈ s.leaves, p a = false := by
  rw [everyLeaf_eq_all, List.all_eq_false]
  simp only [Bool.not_eq_true]

/-- A tree holds somewhere if and only if some leaf does. -/
theorem exists_someLeaf_iff (holds : α → β → Bool) (s : AnyOf α) :
    (∃ b, someLeaf (fun a => holds a b) s = true) ↔ ∃ a ∈ s.leaves, ∃ b, holds a b = true := by
  simp only [someLeaf_eq_true_iff]
  constructor
  · rintro ⟨b, a, ha, hab⟩
    exact ⟨a, ha, b, hab⟩
  · rintro ⟨a, ha, b, hab⟩
    exact ⟨b, a, ha, hab⟩

end AnyOf

/-! ### Days -/

theorem Weekday.stepsTo_self (d : Weekday) : d.stepsTo d = 0 := by
  rw [stepsTo, Nat.add_sub_cancel_left]

/-- Each rule holds on its first day. -/
theorem DayRule.exists_holds (r : DayRule) : ∃ d, r.holds d = true := by
  cases r with
  | on day => exact ⟨day, (holds_on day day).mpr rfl⟩
  | span first last =>
    refine ⟨first, (holds_span first last first).mpr ?_⟩
    rw [Weekday.stepsTo_self]
    exact Nat.zero_le _

theorem DaySet.exists_holds_iff (s : DaySet) : (∃ d, s.holds d = true) ↔ s.leaves ≠ [] := by
  calc (∃ d, s.holds d = true)
    _ ↔ ∃ r ∈ s.leaves, ∃ d, r.holds d = true := AnyOf.exists_someLeaf_iff DayRule.holds s
    _ ↔ ∃ r, r ∈ s.leaves := by simp only [DayRule.exists_holds, and_true]
    _ ↔ s.leaves ≠ [] := ⟨fun ⟨_, hr⟩ => List.ne_nil_of_mem hr, List.exists_mem_of_ne_nil _⟩

/-! ### Times -/

theorem TimeRange.never_iff (r : TimeRange) :
    r.never = true ↔ r.last.minutes < r.first.minutes := decide_eq_true_iff

/-- A range that does not start after its end holds at its start. -/
theorem TimeRange.exists_holds_iff (r : TimeRange) :
    (∃ t, r.holds t = true) ↔ r.never = false := by
  rw [← Bool.not_eq_true, never_iff, Nat.not_lt]
  constructor
  · rintro ⟨t, ht⟩
    obtain ⟨hfirst, hlast⟩ := (r.holds_iff t).mp ht
    exact Nat.le_trans hfirst hlast
  · intro hle
    exact ⟨r.first, (r.holds_iff r.first).mpr ⟨Nat.le_refl _, hle⟩⟩

namespace TimeSet

theorem never_iff_leaves (s : TimeSet) :
    s.never = true ↔ ∀ r ∈ s.leaves, r.last.minutes < r.first.minutes := by
  simp only [never, AnyOf.everyLeaf_eq_true_iff, TimeRange.never_iff]

theorem exists_holds_iff (s : TimeSet) : (∃ t, s.holds t = true) ↔ s.never = false := by
  calc (∃ t, s.holds t = true)
    _ ↔ ∃ r ∈ s.leaves, ∃ t, r.holds t = true := AnyOf.exists_someLeaf_iff TimeRange.holds s
    _ ↔ ∃ r ∈ s.leaves, r.never = false := by simp only [TimeRange.exists_holds_iff]
    _ ↔ s.never = false := AnyOf.everyLeaf_eq_false_iff.symm

/-- The check finds exactly the times that hold at no minute of the day. -/
theorem never_iff_forall_holds_eq_false (s : TimeSet) :
    s.never = true ↔ ∀ t, s.holds t = false := by
  rw [← Bool.not_eq_false, ← exists_holds_iff, not_exists]
  simp only [Bool.not_eq_true]

-- No alternatives, only empty ones, and a range that ends before it starts.
example : never (.among [.among [], .among [.leaf ⟨⟨600, by decide⟩, ⟨599, by decide⟩⟩]]) = true ∧
    never (.among [.among [], .leaf ⟨⟨600, by decide⟩, ⟨600, by decide⟩⟩]) = false := by decide

end TimeSet

/-! ### Windows -/

theorem Window.exists_holds_iff (w : Window) :
    (∃ m, w.holds m = true) ↔ (∃ d, w.days.holds d = true) ∧ ∃ t, w.times.holds t = true := by
  simp only [holds, Bool.and_eq_true]
  constructor
  · rintro ⟨m, hd, ht⟩
    exact ⟨⟨m.day, hd⟩, m.time, ht⟩
  · rintro ⟨⟨d, hd⟩, t, ht⟩
    exact ⟨⟨d, t⟩, hd, ht⟩

theorem Window.IsFlat.exists_day {w : Window} (h : w.IsFlat) : ∃ d, w.days.holds d = true := by
  obtain ⟨rules, hne, heq⟩ := h.days
  rw [DaySet.exists_holds_iff, heq, AnyOf.leaves_ofList]
  exact hne

theorem Window.IsFlat.exists_holds_iff {w : Window} (h : w.IsFlat) :
    (∃ m, w.holds m = true) ↔ w.times.never = false := by
  rw [w.exists_holds_iff, w.times.exists_holds_iff]
  exact and_iff_right h.exists_day

/-! ### Reminders -/

namespace Reminder

theorem exists_activeAt_iff (r : Reminder) :
    (∃ m, r.activeAt m = true) ↔ ∃ w ∈ r.schedule.windows, ∃ m, w.holds m = true := by
  simp only [activeAt, Schedule.holds, List.any_eq_true]
  constructor
  · rintro ⟨m, w, hw, hm⟩
    exact ⟨w, hw, m, hm⟩
  · rintro ⟨w, hw, m, hm⟩
    exact ⟨m, w, hw, hm⟩

theorem IsPlain.exists_activeAt_iff {r : Reminder} (h : r.IsPlain) :
    (∃ m, r.activeAt m = true) ↔ ∃ w ∈ r.schedule.windows, w.times.never = false := by
  rw [r.exists_activeAt_iff]
  exact exists_congr fun w => and_congr_right fun hw => (h.flat w hw).exists_holds_iff

/-- Nothing but ranges that end before they start. -/
theorem IsPlain.forall_activeAt_iff {r : Reminder} (h : r.IsPlain) :
    (∀ m, r.activeAt m = false) ↔
      ∀ w ∈ r.schedule.windows, ∀ range ∈ w.times.leaves,
        range.last.minutes < range.first.minutes := by
  calc (∀ m, r.activeAt m = false)
    _ ↔ ¬∃ m, r.activeAt m = true := by simp only [not_exists, Bool.not_eq_true]
    _ ↔ ¬∃ w ∈ r.schedule.windows, w.times.never = false := not_congr h.exists_activeAt_iff
    _ ↔ ∀ w ∈ r.schedule.windows, w.times.never = true := by
      simp only [not_exists, not_and, Bool.not_eq_false]
    _ ↔ _ := by simp only [TimeSet.never_iff_leaves]

/-- A reminder that was read is active at some moment unless the times of all its windows
never hold. Each window has a day, and holds at some moment unless its times never do. So
a reminder is dead if and only if each of its time ranges ends before it starts. -/
theorem active_unless_times_never {line : String} {r : Reminder} (h : parse line = .ok r) :
    ((∃ m, r.activeAt m = true) ↔ ∃ w ∈ r.schedule.windows, w.times.never = false) ∧
    (∀ w ∈ r.schedule.windows, (∃ d, w.days.holds d = true) ∧
      ((∃ m, w.holds m = true) ↔ w.times.never = false)) ∧
    ((∀ m, r.activeAt m = false) ↔
      ∀ w ∈ r.schedule.windows, ∀ range ∈ w.times.leaves,
        range.last.minutes < range.first.minutes) := by
  have hplain := isPlain_of_parse h
  exact ⟨hplain.exists_activeAt_iff,
    fun w hw => ⟨(hplain.flat w hw).exists_day, (hplain.flat w hw).exists_holds_iff⟩,
    hplain.forall_activeAt_iff⟩

-- A span around the end of the week, and two ranges that would have to pass midnight.
theorem active_unless_times_never_night :
    parse "X; fri-mon 22-6, 12-11:59" =
        .ok ⟨"X", ⟨[⟨.ofList [.span .fri .mon],
          .ofList [⟨⟨1320, by decide⟩, ⟨360, by decide⟩⟩,
            ⟨⟨720, by decide⟩, ⟨719, by decide⟩⟩]⟩]⟩⟩ ∧
      ∀ m, activeAt ⟨"X", ⟨[⟨.ofList [.span .fri .mon],
        .ofList [⟨⟨1320, by decide⟩, ⟨360, by decide⟩⟩,
          ⟨⟨720, by decide⟩, ⟨719, by decide⟩⟩]⟩]⟩⟩ m = false := by
  have h : parse "X; fri-mon 22-6, 12-11:59" =
      .ok ⟨"X", ⟨[⟨.ofList [.span .fri .mon],
        .ofList [⟨⟨1320, by decide⟩, ⟨360, by decide⟩⟩,
          ⟨⟨720, by decide⟩, ⟨719, by decide⟩⟩]⟩]⟩⟩ := by decide +kernel
  exact ⟨h, (active_unless_times_never h).2.2.mpr (by decide)⟩

end Reminder

end WeeklyAgenda

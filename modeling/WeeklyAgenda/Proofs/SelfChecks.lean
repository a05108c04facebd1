import WeeklyAgenda.SelfCheck
import WeeklyAgenda.Proofs.SyntaxTrees

/-! The self-check finds no violation in any line at any moment. All numbers are
reduced to a moment, what is read has a window, a second reading finds the same, and a
reminder is active where one of its windows holds. -/

namespace WeeklyAgenda

open Line

theorem Weekday.ofNumber?_mod (n : Nat) : ofNumber? (n % 7 + 1) = some (ofIndex n) := by
  rw [← index_ofIndex]
  exact ofNumber?_number (ofIndex n)

theorem Reminder.isEmpty_of_parse {line : String} {r : Reminder} (h : parse line = .ok r) :
    r.schedule.isEmpty = false := by
  obtain ⟨label, rest, -, -, hne, rfl⟩ := parse_eq_ok_iff.mp h
  exact List.isEmpty_eq_false_iff.mpr hne

namespace SelfCheck

/-! ### Moments -/

theorem moment?_eq (day minutes : Nat) :
    moment? day minutes =
      some ⟨.ofIndex day, minutes % 1440, Nat.mod_lt minutes (by decide)⟩ := by
  have htime : ClockTime.ofMinutes? (minutes % 1440) =
      some ⟨minutes % 1440, Nat.mod_lt minutes (by decide)⟩ := dif_pos _
  rw [moment?, Moment.ofNumbers?, Weekday.ofNumber?_mod, htime]

/-- Bytes and numbers of 16 bits are reduced without an overflow. -/
theorem ofNumbers?_toNat (day : UInt8) (minutes : UInt16) :
    Moment.ofNumbers? (day % 7 + 1).toNat (minutes % 1440).toNat =
      moment? day.toNat minutes.toNat := by
  have hlt : day.toNat % 7 < 7 := Nat.mod_lt _ (by decide)
  have hday : (day % 7 + 1).toNat = day.toNat % 7 + 1 := by
    rw [UInt8.toNat_add, UInt8.toNat_mod]
    exact Nat.mod_eq_of_lt (show day.toNat % 7 + 1 < 2 ^ 8 by omega)
  rw [hday, UInt16.toNat_mod]
  rfl

/-! ### What is asked of a reminder -/

/-- A reminder that the check finds no violation in. -/
structure Passes (line : String) (m : Moment) (r : Reminder) : Prop where
  isEmpty_eq : r.schedule.isEmpty = false
  parse?_eq : Reminder.parse? line = some r
  activeAt_eq : r.activeAt m = anyWindow r m

theorem activeAt_eq_anyWindow (r : Reminder) (m : Moment) : r.activeAt m = anyWindow r m := rfl

/-- However deep its alternatives are nested, a window holds at the days and times of
their leaves. -/
theorem anyWindow_eq_leaves (r : Reminder) (m : Moment) :
    anyWindow r m = r.schedule.windows.any fun w =>
      w.days.leaves.any (fun d => d.holds m.day) && w.times.leaves.any fun t => t.holds m.time := by
  simp only [anyWindow, DaySet.holds, TimeSet.holds, AnyOf.someLeaf_eq_any]

theorem passes_of_parse {line : String} {r : Reminder} (h : Reminder.parse line = .ok r)
    (m : Moment) : Passes line m r :=
  ⟨Reminder.isEmpty_of_parse h, Reminder.parse?_eq_some_iff.mpr h, activeAt_eq_anyWindow r m⟩

theorem run_of_passes {line : String} {day minutes : Nat} {m : Moment} {r : Reminder}
    (hm : moment? day minutes = some m) (h : Passes line m r) :
    run line day minutes = .ok true := by
  simp [run, hm, h.parse?_eq, h.isEmpty_eq, h.activeAt_eq]

theorem run_of_unread {line : String} (h : Reminder.parse? line = none) (day minutes : Nat) :
    run line day minutes = .ok false := by
  rw [run, moment?_eq, h]

/-- The outcome is whether the line gives a reminder. -/
theorem run_eq_isSome (line : String) (day minutes : Nat) :
    run line day minutes = .ok (Reminder.parse? line).isSome := by
  cases h : Reminder.parse? line with
  | none => exact run_of_unread h day minutes
  | some r =>
    exact run_of_passes (moment?_eq day minutes)
      (passes_of_parse (Reminder.parse?_eq_some_iff.mp h) _)

/-- The self-check runs to its end on each line at each moment. The reading through the
syntax tree fails no check and is the direct one; the numbers are reduced to a moment;
a reminder that is read has a window, is read again, and is active at the moment if a
leaf for the day and one for the time hold in one of its windows; and the outcome is
true if and only if there is a reminder. -/
theorem run_without_violation (line : String) (day : UInt8) (minutes : UInt16) :
    Reading.checked line = .ok (Reading.ofLine line) ∧
      ∃ m, Moment.ofNumbers? (day % 7 + 1).toNat (minutes % 1440).toNat = some m ∧
        moment? day.toNat minutes.toNat = some m ∧
        (∀ r, Reminder.parse line = .ok r → Passes line m r ∧
          r.activeAt m = r.schedule.windows.any fun w =>
            w.days.leaves.any (fun d => d.holds m.day) &&
              w.times.leaves.any fun t => t.holds m.time) ∧
        run line day.toNat minutes.toNat = .ok (Reminder.parse? line).isSome ∧
        (run line day.toNat minutes.toNat = .ok true ↔ ∃ r, Reminder.parse line = .ok r) := by
  have hrun := run_eq_isSome line day.toNat minutes.toNat
  refine ⟨Reading.checked_eq_ofLine line, _, ?reduced, moment?_eq _ _, fun r h => ?passes, hrun,
    ?accepted⟩
  case reduced => rw [ofNumbers?_toNat, moment?_eq]
  case passes => exact ⟨passes_of_parse h _, anyWindow_eq_leaves r _⟩
  case accepted =>
    rw [hrun, Except.ok.injEq, Option.isSome_iff_exists]
    simp only [Reminder.parse?_eq_some_iff]

-- The largest numbers come to a quarter past twelve on Wednesday.
theorem run_without_violation_largest :
    ∃ m r, moment? 255 65535 = some m ∧ Passes "é; MON É 9:é-10; t4 12-13" m r ∧
      r.activeAt m = true ∧ run "é; MON É 9:é-10; t4 12-13" 255 65535 = .ok true := by
  have hactive : ((Reminder.parse? "é; MON É 9:é-10; t4 12-13").any fun r =>
      (moment? 255 65535).any fun m => r.activeAt m) = true := by decide +kernel
  simp only [Option.any_eq_true, Reminder.parse?_eq_some_iff] at hactive
  obtain ⟨r, hr, m, hm, hactive⟩ := hactive
  obtain ⟨-, m', -, hm', hpasses, -, hrun⟩ :=
    run_without_violation "é; MON É 9:é-10; t4 12-13" 255 65535
  obtain rfl : m = m' := Option.some.inj (hm.symm.trans hm')
  exact ⟨m, r, hm, (hpasses r hr).1, hactive, hrun.mpr ⟨r, hr⟩⟩

end SelfCheck

end WeeklyAgenda

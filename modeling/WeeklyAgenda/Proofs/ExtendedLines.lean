import WeeklyAgenda.Proofs.Readings

/-! Lines with something written behind them. What begins with a separator or a
semicolon cuts no word, so a reminder keeps its label and its windows when its line
is extended: only the window of the last segment can gain days and times, and others
can come behind it. The reminder stays active wherever it was. -/

namespace WeeklyAgenda

open Line Pieces

/-! ### Windows -/

/-- Days and times are added at the end. -/
def Window.IsExtendedBy (w w' : Window) : Prop :=
  ∃ days moreDays times moreTimes, w = ⟨.ofList days, .ofList times⟩ ∧
    w' = ⟨.ofList (days ++ moreDays), .ofList (times ++ moreTimes)⟩

theorem Window.IsExtendedBy.holds {w w' : Window} (h : w.IsExtendedBy w') {m : Moment}
    (hm : w.holds m = true) : w'.holds m = true := by
  obtain ⟨days, moreDays, times, moreTimes, rfl, rfl⟩ := h
  simp only [Window.holds, DaySet.holds, TimeSet.holds, AnyOf.someLeaf_eq_any,
    AnyOf.leaves_ofList, List.any_append, Bool.and_eq_true, Bool.or_eq_true] at hm ⊢
  exact ⟨.inl hm.1, .inl hm.2⟩

/-- What a segment that is longer by whole words names comes behind what it named
before. -/
theorem Window.ofSegment?_append {segment first : List Char} {w : Window}
    (hf : Ended isSeparator first) (h : ofSegment? segment = some w) :
    ∃ w', ofSegment? (segment ++ first) = some w' ∧ w.IsExtendedBy w' := by
  obtain ⟨hdays, htimes, rfl⟩ := ofSegment?_eq_some_iff.mp h
  refine ⟨_, ofSegment?_eq_some_iff.mpr ⟨?_, ?_, rfl⟩, daysOf segment, daysOf first,
    timesOf segment, timesOf first, rfl, ?_⟩
  · rw [daysOf_append (.inr hf)]
    exact List.append_ne_nil_of_left_ne_nil hdays _
  · rw [timesOf_append (.inr hf)]
    exact List.append_ne_nil_of_left_ne_nil htimes _
  · rw [daysOf_append (.inr hf), timesOf_append (.inr hf)]

/-! ### Schedules -/

/-- The windows stay in their order, and others come behind them. If the last segment
has a window, that is the last one, and it may be extended. -/
inductive Schedule.IsExtendedBy : Option Window → Schedule → Schedule → Prop
  | added (kept more : List Window) : IsExtendedBy none ⟨kept⟩ ⟨kept ++ more⟩
  | grown (kept more : List Window) {w w' : Window} (extended : w.IsExtendedBy w') :
      IsExtendedBy (some w) ⟨kept ++ [w]⟩ ⟨kept ++ w' :: more⟩

theorem Schedule.IsExtendedBy.holds {last : Option Window} {s s' : Schedule}
    (h : IsExtendedBy last s s') {m : Moment} (hm : s.holds m = true) : s'.holds m = true := by
  cases h with
  | added kept more =>
    simp only [Schedule.holds, List.any_append, Bool.or_eq_true] at hm ⊢
    exact .inl hm
  | grown kept more extended =>
    simp only [Schedule.holds, List.any_append, List.any_cons, List.any_nil, Bool.or_eq_true,
      Bool.or_false] at hm ⊢
    exact hm.imp_right fun hw => .inl (extended.holds hw)

theorem Schedule.IsExtendedBy.windows_ne_nil {last : Option Window} {s s' : Schedule}
    (h : IsExtendedBy last s s') (hne : s.windows ≠ []) : s'.windows ≠ [] := by
  cases h with
  | added kept more => exact List.append_ne_nil_of_left_ne_nil hne more
  | grown kept more extended => simp

theorem Schedule.isExtendedBy_segments (segments others : List (List Char))
    {segment first : List Char} (hf : Ended isSeparator first) :
    IsExtendedBy (Window.ofSegment? segment)
      ⟨(segments ++ [segment]).filterMap Window.ofSegment?⟩
      ⟨(segments ++ (segment ++ first) :: others).filterMap Window.ofSegment?⟩ := by
  rw [List.filterMap_append, List.filterMap_append]
  cases h : Window.ofSegment? segment with
  | none =>
    rw [List.filterMap_cons_none h, List.filterMap_nil, List.append_nil]
    exact .added _ _
  | some w =>
    obtain ⟨w', hw', hext⟩ := Window.ofSegment?_append hf h
    rw [List.filterMap_cons_some h, List.filterMap_cons_some hw', List.filterMap_nil]
    exact .grown _ _ hext

/-! ### Lines -/

namespace Reminder

/-- A line that gives a reminder still gives one with more behind it, unless that cuts
into its last word. The label and the windows stay, and the reminder is active wherever
it was. -/
theorem parse_append {line s : String} {r : Reminder} (h : parse line = .ok r)
    (hs : Ended isWordEnd s.toList) :
    ∃ r', parse (line ++ s) = .ok r' ∧ r'.label = r.label ∧
      (∃ front segment, line.toList = front ++ ';' :: segment ∧ ';' ∉ segment ∧
        r.schedule.IsExtendedBy (Window.ofSegment? segment) r'.schedule) ∧
      ∀ m, r.activeAt m = true → r'.activeAt m = true := by
  have hm : ';' ∈ line.toList := by
    obtain ⟨label, rest, heq, -⟩ := parse_eq_ok_iff.mp h
    simp [heq]
  obtain ⟨front, segment, hline, hfree⟩ := exists_last_segment hm
  obtain ⟨label, segments, hfront⟩ := exists_pieces_eq_cons isSemicolon front
  obtain ⟨first, others, hback⟩ := exists_pieces_eq_cons isSemicolon s.toList
  have hparts : pieces isSemicolon line.toList = label :: (segments ++ [segment]) := by
    rw [hline, pieces_append_sep front segment rfl, hfront, pieces_of_free hfree,
      List.cons_append]
  have hparts' : pieces isSemicolon (line ++ s).toList =
      label :: (segments ++ (segment ++ first) :: others) := by
    rw [String.toList_append, hline, pieces_append_last hfree hback, hfront, List.cons_append]
  have hext := @Schedule.isExtendedBy_segments segments others segment first
    (ended_isSeparator hback hs)
  rw [parse_pieces hm hparts] at h
  split at h
  · cases h
  · next hne =>
    cases h
    have hread := parse_pieces (by simp [hm]) hparts'
    rw [if_neg (hext.windows_ne_nil hne)] at hread
    exact ⟨_, hread, rfl, ⟨front, segment, hline, free_isSemicolon.mp hfree, hext⟩,
      fun m => hext.holds⟩

-- The last segment gains a day and a time, and a second clause gets a window.
theorem parse_append_gains :
    parse "Call; mon 9-10" =
        .ok ⟨"Call", ⟨[⟨.ofList [.on .mon], .ofList [⟨⟨540, by decide⟩, ⟨600, by decide⟩⟩]⟩]⟩⟩ ∧
      Ended isWordEnd ", fri 8-9; sun 7-8".toList ∧
      ∃ r', parse "Call; mon 9-10, fri 8-9; sun 7-8" = .ok r' ∧ r'.label = "Call" ∧
        r'.activeAt ⟨.mon, ⟨570, by decide⟩⟩ = true := by
  have h : parse "Call; mon 9-10" =
      .ok ⟨"Call", ⟨[⟨.ofList [.on .mon], .ofList [⟨⟨540, by decide⟩, ⟨600, by decide⟩⟩]⟩]⟩⟩ := by
    decide +kernel
  have hs : Ended isWordEnd ", fri 8-9; sun 7-8".toList := by decide
  obtain ⟨r', hr', hlabel, -, hactive⟩ := parse_append h hs
  exact ⟨h, hs, r', hr', hlabel, hactive _ (by decide)⟩

end Reminder

end WeeklyAgenda

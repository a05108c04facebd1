import WeeklyAgenda.Proofs.Loading
import WeeklyAgenda.Proofs.WrittenLines

/-! Where the reminders of an agenda come from. Each one is traced through all edits,
also those that pick or append, back to the edit that offered its line. As parsing
gives plain reminders only, so does every run of edits; and the lines of bytes have
no line feed that a label could take over. -/

namespace WeeklyAgenda

namespace Edit

/-- The lines that an edit has for parsing, none if it fails. -/
def offered (disk : Disk) : Edit → List String
  | setLines lines | append lines => lines
  | read r => r.lines.toOption.getD []
  | load path => ((disk path).toOption.bind fun r => r.lines.toOption).getD []
  | clear | pick _ => []

/-- Whether an edit takes its lines from bytes. -/
def takesBytes : Edit → Bool
  | read _ | load _ => true
  | setLines _ | clear | pick _ | append _ => false

theorem apply_of_result {disk : Disk} {a b : Agenda} {e : Edit} (h : e.result disk a = .ok b) :
    e.apply disk a = b := by
  rw [apply, h]

/-- An edit that takes bytes fails, or it puts the agenda of their lines in place. -/
theorem cases_of_takesBytes {e : Edit} (h : e.takesBytes) (disk : Disk) :
    e.fails disk = true ∧ e.offered disk = [] ∨
      ∃ bytes, e.fails disk = false ∧ e.offered disk = Reader.linesOf bytes ∧
        ∀ a, e.apply disk a = .ofLines (Reader.linesOf bytes) := by
  cases e with
  | read r =>
    rcases r with ⟨chunks, _ | f⟩
    · refine .inr ⟨chunks.flatten, rfl, ?_, fun a => apply_of_result (Agenda.ofReader_eq chunks)⟩
      rw [offered, Reader.lines_eq]
      rfl
    · refine .inl ⟨rfl, ?_⟩
      rw [offered, Reader.lines_fault]
      rfl
  | load path =>
    cases hdisk : disk path with
    | error f => exact .inl ⟨by rw [fails, hdisk], by rw [offered, hdisk]; rfl⟩
    | ok r =>
      rcases r with ⟨chunks, _ | f⟩
      · refine .inr ⟨chunks.flatten, by rw [fails, hdisk]; rfl, ?_, fun a => ?_⟩
        · rw [offered, hdisk]
          exact congrArg (fun lines => lines.toOption.getD []) (Reader.lines_eq chunks)
        · exact apply_of_result ((Agenda.load_of_open hdisk).trans (Agenda.ofReader_eq chunks))
      · refine .inl ⟨by rw [fails, hdisk]; rfl, ?_⟩
        rw [offered, hdisk]
        exact congrArg (fun lines => lines.toOption.getD []) (Reader.lines_fault chunks f)
  | setLines | clear | pick | append => cases h

/-- No line that comes from bytes has a line feed in it. -/
theorem lineFeed_not_mem_of_offered {e : Edit} (h : e.takesBytes) {disk : Disk} {line : String}
    (hline : line ∈ e.offered disk) : '\n' ∉ line.toList := by
  rcases cases_of_takesBytes h disk with ⟨-, hnone⟩ | ⟨bytes, -, hlines, -⟩
  · simp [hnone] at hline
  · rw [hlines, Reader.linesOf_eq_textLines] at hline
    exact lineFeed_not_mem_textLines hline

end Edit

/-- A reminder with the edit that offered its line. -/
structure Traced where
  reminder : Reminder
  line : String
  step : Disk × Edit

namespace Traced

def ofLine? (step : Disk × Edit) (line : String) : Option Traced :=
  (Reminder.parse? line).map fun r => ⟨r, line, step⟩

/-- The reminders of the lines that an edit offers. -/
def added (step : Disk × Edit) : List Traced :=
  (step.2.offered step.1).filterMap (ofLine? step)

/-- An edit of reminders whose origins are known. -/
def apply (held : List Traced) (step : Disk × Edit) : List Traced :=
  match step.2 with
  | .setLines _ => added step
  | .read _ | .load _ => if step.2.fails step.1 then held else added step
  | .clear => []
  | .pick positions => positions.filterMap fun i => held[i]?
  | .append _ => held ++ added step

def run (steps : List (Disk × Edit)) : List Traced := steps.foldl apply []

theorem run_concat (before : List (Disk × Edit)) (step : Disk × Edit) :
    run (before ++ [step]) = apply (run before) step := List.foldl_append

/-! ### The same agenda -/

theorem map_reminder_added (step : Disk × Edit) :
    (added step).map reminder = (Agenda.ofLines (step.2.offered step.1)).reminders := by
  rw [added, List.map_filterMap, Agenda.ofLines_reminders]
  refine List.filterMap_congr fun line _ => ?_
  rw [ofLine?, Option.map_map]
  exact Option.map_id'

theorem apply_of_takesBytes {step : Disk × Edit} (h : step.2.takesBytes) (held : List Traced) :
    apply held step = if step.2.fails step.1 then held else added step := by
  obtain ⟨disk, e⟩ := step
  cases e with
  | read | load => rfl
  | setLines | clear | pick | append => cases h

/-- Forgetting the origins gives the edit of the agenda. -/
theorem map_reminder_apply (held : List Traced) (step : Disk × Edit) :
    (apply held step).map reminder = (step.2.apply step.1 ⟨held.map reminder⟩).reminders := by
  have hbytes : step.2.takesBytes → (apply held step).map reminder =
      (step.2.apply step.1 ⟨held.map reminder⟩).reminders := by
    intro h
    rw [apply_of_takesBytes h]
    rcases Edit.cases_of_takesBytes h step.1 with ⟨hfails, -⟩ | ⟨bytes, hfails, hlines, happly⟩
    · rw [if_pos hfails, Edit.apply_of_fails hfails]
    · rw [hfails, if_neg Bool.false_ne_true, map_reminder_added, hlines, happly]
  obtain ⟨disk, e⟩ := step
  cases e with
  | read | load => exact hbytes rfl
  | setLines lines => exact map_reminder_added (disk, .setLines lines)
  | clear => rfl
  | pick positions =>
    change (positions.filterMap _).map reminder = positions.filterMap _
    rw [List.map_filterMap]
    exact List.filterMap_congr fun i _ => List.getElem?_map.symm
  | append lines =>
    have hadded := map_reminder_added (disk, .append lines)
    change (held ++ added (disk, .append lines)).map reminder = _
    rw [List.map_append, hadded]
    rfl

theorem map_reminder_run (steps : List (Disk × Edit)) :
    (run steps).map reminder = (Agenda.empty.editedOver steps).reminders := by
  induction steps using List.reverseRecOn with
  | nil => rfl
  | append_singleton before step ih =>
    rw [run_concat, map_reminder_apply, ih, Agenda.editedOver_concat]

/-! ### Origins -/

/-- What the origin of a reminder vouches for, in a run of edits. -/
structure Sound (steps : List (Disk × Edit)) (x : Traced) : Prop where
  step_mem : x.step ∈ steps
  line_mem : x.line ∈ x.step.2.offered x.step.1
  parse_line : Reminder.parse x.line = .ok x.reminder

theorem sound_of_mem_added {step : Disk × Edit} {x : Traced} (h : x ∈ added step) :
    x.Sound [step] := by
  obtain ⟨line, hline, hx⟩ := List.mem_filterMap.mp h
  obtain ⟨r, hr, rfl⟩ := Option.map_eq_some_iff.mp hx
  exact ⟨List.mem_singleton_self step, hline, Reminder.parse?_eq_some_iff.mp hr⟩

/-- An edit keeps reminders or adds those of its lines. -/
theorem mem_or_mem_added {held : List Traced} {step : Disk × Edit} {x : Traced}
    (h : x ∈ apply held step) : x ∈ held ∨ x ∈ added step := by
  obtain ⟨disk, e⟩ := step
  cases e with
  | read | load =>
    rw [apply_of_takesBytes rfl] at h
    split at h
    · exact .inl h
    · exact .inr h
  | setLines => exact .inr h
  | clear => cases h
  | pick positions =>
    obtain ⟨i, -, hi⟩ := List.mem_filterMap.mp h
    exact .inl (List.mem_of_getElem? hi)
  | append => exact List.mem_append.mp h

theorem sound_of_mem_run {steps : List (Disk × Edit)} {x : Traced} (h : x ∈ run steps) :
    x.Sound steps := by
  induction steps using List.reverseRecOn with
  | nil => cases h
  | append_singleton before step ih =>
    rw [run_concat] at h
    rcases mem_or_mem_added h with hx | hx
    · have hsound := ih hx
      exact { hsound with step_mem := List.mem_append_left _ hsound.step_mem }
    · have hsound := sound_of_mem_added hx
      exact { hsound with step_mem := List.mem_append_right _ hsound.step_mem }

theorem Sound.isPlain {steps : List (Disk × Edit)} {x : Traced} (h : x.Sound steps) :
    x.reminder.IsPlain := Reminder.isPlain_of_parse h.parse_line

theorem Sound.lineFeed_not_mem_label {steps : List (Disk × Edit)} {x : Traced} (h : x.Sound steps)
    (hbytes : x.step.2.takesBytes) : '\n' ∉ x.reminder.label.toList := fun hmem =>
  Edit.lineFeed_not_mem_of_offered hbytes h.line_mem (Reminder.mem_of_mem_label h.parse_line hmem)

end Traced

namespace Agenda

theorem exists_offered {steps : List (Disk × Edit)} {r : Reminder}
    (hr : r ∈ (empty.editedOver steps).reminders) :
    ∃ step ∈ steps, ∃ line ∈ step.2.offered step.1, Reminder.parse line = .ok r := by
  rw [← Traced.map_reminder_run] at hr
  obtain ⟨x, hx, rfl⟩ := List.mem_map.mp hr
  have hsound := Traced.sound_of_mem_run hx
  exact ⟨x.step, hsound.step_mem, x.line, hsound.line_mem, hsound.parse_line⟩

theorem ofLines_map_toLine {a : Agenda} (h : ∀ r ∈ a.reminders, r.IsPlain) :
    ofLines (a.reminders.map Reminder.toLine) = a := by
  have hparse : ∀ r ∈ a.reminders, (Reminder.parse? ∘ Reminder.toLine) r = some r := fun r hr =>
    Reminder.parse?_eq_some_iff.mpr (Reminder.parse_toLine (h r hr))
  have hreminders := ofLines_reminders (a.reminders.map Reminder.toLine)
  rw [List.filterMap_map, List.filterMap_congr hparse, List.filterMap_some] at hreminders
  exact congrArg mk hreminders

/-- Plain reminders are all that edits can make, and any of them can be made. -/
theorem exists_editedOver_iff (a : Agenda) :
    (∃ steps, empty.editedOver steps = a) ↔ ∀ r ∈ a.reminders, r.IsPlain := by
  constructor
  · rintro ⟨steps, rfl⟩ r hr
    obtain ⟨-, -, line, -, hparse⟩ := exists_offered hr
    exact Reminder.isPlain_of_parse hparse
  · intro h
    -- The agenda is read back from its own lines.
    let disk : Disk := fun _ => .error .notFound
    exact ⟨[(disk, .setLines (a.reminders.map Reminder.toLine))], ofLines_map_toLine h⟩

end Agenda

theorem Edit.apply_pick (a : Agenda) (disk : Disk) (chosen : List (Fin a.reminders.length)) :
    (pick (chosen.map Fin.val)).apply disk a = ⟨chosen.map a.reminders.get⟩ := by
  have hget : (fun i => a.reminders[i]?) ∘ Fin.val = some ∘ a.reminders.get :=
    funext fun i => List.getElem?_eq_getElem i.isLt
  change Agenda.mk ((chosen.map Fin.val).filterMap fun i => a.reminders[i]?) = _
  rw [List.filterMap_map, hget, List.filterMap_eq_map]

/-- The reminders of an agenda that edits make from nothing are each what parsing makes
of a line that one of the edits offered; if the edit took the line from bytes, then the
label has no line feed. The agendas made so are those of plain reminders. Picking
gives the chosen reminders, in the order and as often as they were chosen, and appending
keeps what there was in front. -/
theorem Agenda.traced_editedOver :
    (∀ steps, (Traced.run steps).map Traced.reminder = (empty.editedOver steps).reminders) ∧
    (∀ steps, ∀ x ∈ Traced.run steps, x.Sound steps ∧ x.reminder.IsPlain ∧
      (x.step.2.takesBytes → '\n' ∉ x.reminder.label.toList)) ∧
    (∀ steps, ∀ r ∈ (empty.editedOver steps).reminders,
      ∃ step ∈ steps, ∃ line ∈ step.2.offered step.1, Reminder.parse line = .ok r) ∧
    (∀ a, (∃ steps, empty.editedOver steps = a) ↔ ∀ r ∈ a.reminders, r.IsPlain) ∧
    (∀ a disk (chosen : List (Fin a.reminders.length)),
      (Edit.pick (chosen.map Fin.val)).apply disk a = ⟨chosen.map a.reminders.get⟩) ∧
    ∀ a disk lines, (Edit.append lines).apply disk a =
      ⟨a.reminders ++ (ofLines lines).reminders⟩ := by
  refine ⟨Traced.map_reminder_run, fun steps x hx => ?sound, fun steps r => exists_offered,
    exists_editedOver_iff, Edit.apply_pick, fun a disk lines => rfl⟩
  case sound =>
    have hsound := Traced.sound_of_mem_run hx
    exact ⟨hsound, hsound.isPlain, hsound.lineFeed_not_mem_label⟩

-- Only the line that was given as text has a line feed; the second edit fails.
theorem Agenda.traced_editedOver_picked :
    let file : Disk := fun _ => .ok ⟨[Utf8.encode "Tea; sun 9-10\nbad\n".toList], none⟩
    let none : Disk := fun _ => .error .notFound
    let steps := [(file, .load "week.txt"), (none, .load "week.txt"),
      (none, .append ["a\nb; mon 8-9"]), (none, .pick [1, 0, 1, 7])]
    (empty.editedOver steps).reminders.map Reminder.label = ["a\nb", "Tea", "a\nb"] ∧
    ∃ x ∈ Traced.run steps, x.step.2.takesBytes ∧ '\n' ∉ x.reminder.label.toList := by
  intro file none steps
  obtain ⟨-, hsound, -⟩ := traced_editedOver
  have hany : ((Traced.run steps).any fun x => x.step.2.takesBytes) = true := by decide +kernel
  obtain ⟨x, hx, hbytes⟩ := List.any_eq_true.mp hany
  exact ⟨by decide +kernel, x, hx, hbytes, (hsound steps x hx).2.2 hbytes⟩

end WeeklyAgenda

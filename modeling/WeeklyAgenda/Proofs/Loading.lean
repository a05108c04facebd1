import WeeklyAgenda.Agenda.History
import WeeklyAgenda.Proofs.ByteLines

/-! Loading, one item of a reader after the other. The items are the finished
lines and then, at a fault, the fault: a line in progress is lost with it. Lines
are only put aside while there may be more, so that a fault leaves nothing but
its error, and an agenda that was to be replaced stays what it was. -/

namespace WeeklyAgenda

namespace Reader

/-- What is still to be delivered, with a line in progress. -/
def itemsFrom (current : List UInt8) (fault : Option Fault) :
    List (List UInt8) → List (Except Fault (List UInt8))
  | [] =>
    match fault with
    | some f => [.error f]
    | none => (Pieces.dropLastIf List.isEmpty [current.reverse]).map .ok
  | chunk :: chunks =>
    (feed current chunk).1.map .ok ++ itemsFrom (feed current chunk).2 fault chunks

def items (r : Reader) : List (Except Fault (List UInt8)) := itemsFrom [] r.fault r.chunks

/-- The items are those of all chunks at once. -/
theorem itemsFrom_flatten (current : List UInt8) (fault : Option Fault)
    (chunks : List (List UInt8)) :
    itemsFrom current fault chunks =
      (feed current chunks.flatten).1.map .ok ++
        itemsFrom (feed current chunks.flatten).2 fault [] := by
  induction chunks generalizing current with
  | nil => rw [List.flatten_nil, feed_nil, List.map_nil, List.nil_append]
  | cons chunk chunks ih =>
    rw [itemsFrom, ih, List.flatten_cons, feed_append, List.map_append, List.append_assoc]

/-- All finished lines come before the fault. -/
theorem items_fault (chunks : List (List UInt8)) (f : Fault) :
    items ⟨chunks, some f⟩ = (feed [] chunks.flatten).1.map .ok ++ [.error f] :=
  itemsFrom_flatten [] (some f) chunks

theorem items_eq (chunks : List (List UInt8)) :
    items ⟨chunks, none⟩ = (Pieces.lines (· == lineFeed) chunks.flatten).map .ok := by
  have hlines : Pieces.lines (· == lineFeed) chunks.flatten =
      (feed [] chunks.flatten).1 ++
        Pieces.dropLastIf List.isEmpty [(feed [] chunks.flatten).2.reverse] :=
    Except.ok.inj ((byteLines_eq chunks).symm.trans (linesFrom_none [] chunks))
  rw [hlines, List.map_append]
  exact itemsFrom_flatten [] none chunks

end Reader

theorem Agenda.ofReader_fault (chunks : List (List UInt8)) (f : Fault) :
    ofReader ⟨chunks, some f⟩ = .error (.unread f) := by
  rw [ofReader, Import.ofReader, Reader.lines_fault]
  rfl

theorem Agenda.ofReader_error_iff (r : Reader) (e : LoadError) :
    ofReader r = .error e ↔ ∃ f, r.fault = some f ∧ e = .unread f := by
  rcases r with ⟨chunks, _ | f⟩
  · simp [ofReader_eq]
  · simp [ofReader_fault, eq_comm]

/-- Loading in progress: the lines put aside, the events recorded and, once it
has ended, how. -/
structure Loading where
  lines : List String
  events : List Event
  outcome : Option (Except LoadError Agenda)

namespace Loading

def start : Loading := ⟨[], [], none⟩

/-- Takes an item. A fault ends the loading, and nothing is taken after it. -/
def take (s : Loading) (item : Except Fault (List UInt8)) : Loading :=
  match s.outcome, item with
  | some _, _ => s
  | none, .error f => { s with outcome := some (.error (.unread f)) }
  | none, .ok line => { s with lines := s.lines ++ [Reader.lineText line] }

/-- When there are no more items, the lines are imported. -/
def finish (s : Loading) : Loading :=
  match s.outcome with
  | some _ => s
  | none =>
    let imported := Import.ofLines s.lines
    { s with events := s.events ++ imported.events, outcome := some (.ok imported.agenda) }

def run (r : Reader) : Loading := (r.items.foldl take start).finish

/-- Nothing has been recorded and there is no agenda. -/
def Silent (s : Loading) : Prop := s.events = [] ∧ ∀ a, s.outcome ≠ some (.ok a)

theorem Silent.take {s : Loading} (hs : s.Silent) (item : Except Fault (List UInt8)) :
    (s.take item).Silent := by
  rcases s with ⟨lines, events, _ | outcome⟩
  · cases item with
    | error f => exact ⟨hs.1, fun a => by simp [Loading.take]⟩
    | ok line => exact hs
  · exact hs

/-- Items alone, as many as there are, give nothing away. -/
theorem Silent.foldl_take {s : Loading} (hs : s.Silent) (items : List (Except Fault (List UInt8))) :
    (items.foldl Loading.take s).Silent := by
  induction items generalizing s with
  | nil => exact hs
  | cons item items ih => exact ih (hs.take item)

theorem silent_start : start.Silent := ⟨rfl, fun a => by simp [start]⟩

theorem take_ok (put : List String) (events : List Event) (line : List UInt8) :
    take ⟨put, events, none⟩ (.ok line) = ⟨put ++ [Reader.lineText line], events, none⟩ := rfl

theorem foldl_take_ok (put : List String) (events : List Event) (lines : List (List UInt8)) :
    (lines.map .ok).foldl take ⟨put, events, none⟩ =
      ⟨put ++ lines.map Reader.lineText, events, none⟩ := by
  induction lines generalizing put with
  | nil => rw [List.map_nil, List.map_nil, List.append_nil, List.foldl_nil]
  | cons line lines ih =>
    rw [List.map_cons, List.foldl_cons, take_ok, ih, List.map_cons, ← List.append_cons]

theorem run_fault (chunks : List (List UInt8)) (f : Fault) :
    run ⟨chunks, some f⟩ =
      ⟨(Reader.feed [] chunks.flatten).1.map Reader.lineText, [],
        some (.error (.unread f))⟩ := by
  rw [run, Reader.items_fault, List.foldl_append, start, foldl_take_ok]
  rfl

theorem run_eq (chunks : List (List UInt8)) :
    run ⟨chunks, none⟩ =
      let lines := Reader.linesOf chunks.flatten
      ⟨lines, (Import.ofLines lines).events, some (.ok (.ofLines lines))⟩ := by
  rw [run, Reader.items_eq, start, foldl_take_ok]
  rfl

/-- The loading of the items is the reading of the agenda. -/
theorem run_outcome (r : Reader) : (run r).outcome = some (Agenda.ofReader r) := by
  rcases r with ⟨chunks, _ | f⟩
  · rw [run_eq, Agenda.ofReader_eq]
  · rw [run_fault, Agenda.ofReader_fault]

end Loading

/-! ### Replacing an agenda -/

/-- The edits that fail, whatever agenda is held. -/
def Edit.fails (disk : Disk) : Edit → Bool
  | read r => r.fault.isSome
  | load path =>
    match disk path with
    | .error _ => true
    | .ok r => r.fault.isSome
  | setLines _ | clear | pick _ | append _ => false

theorem Agenda.exists_ofReader_error_iff (r : Reader) :
    (∃ e, ofReader r = .error e) ↔ r.fault.isSome := by
  simp [ofReader_error_iff, Option.isSome_iff_exists]

theorem Agenda.load_of_unopened {disk : Disk} {path : String} {f : Fault}
    (h : disk path = .error f) : load disk path = .error (.unopened path f) := by
  rw [load, Import.load, h]
  rfl

theorem Edit.exists_result_error_iff (disk : Disk) (a : Agenda) (e : Edit) :
    (∃ err, e.result disk a = .error err) ↔ e.fails disk := by
  cases e with
  | read r => exact Agenda.exists_ofReader_error_iff r
  | load path =>
    rw [result, fails]
    cases h : disk path with
    | error f => simp [Agenda.load_of_unopened h]
    | ok r => rw [Agenda.load_of_open h, Agenda.exists_ofReader_error_iff]
  | setLines | clear | pick | append => simp [result, fails]

theorem Edit.apply_of_error {disk : Disk} {a : Agenda} {e : Edit} {err : LoadError}
    (h : e.result disk a = .error err) : e.apply disk a = a := by
  rw [apply, h]

theorem Edit.apply_of_fails {disk : Disk} {e : Edit} (h : e.fails disk) (a : Agenda) :
    e.apply disk a = a := by
  obtain ⟨err, herr⟩ := (exists_result_error_iff disk a e).mpr h
  exact apply_of_error herr

/-- The agenda after some edits, in order, each with the disk as it is then. -/
def Agenda.editedOver (a : Agenda) (steps : List (Disk × Edit)) : Agenda :=
  steps.foldl (fun a step => step.2.apply step.1 a) a

theorem Agenda.editedOver_cons (a : Agenda) (step : Disk × Edit) (steps : List (Disk × Edit)) :
    a.editedOver (step :: steps) = (step.2.apply step.1 a).editedOver steps := rfl

theorem Agenda.editedOver_concat (a : Agenda) (before : List (Disk × Edit)) (step : Disk × Edit) :
    a.editedOver (before ++ [step]) = step.2.apply step.1 (a.editedOver before) :=
  List.foldl_append

/-- A disk that stays as it is. -/
theorem Agenda.edited_eq_editedOver (disk : Disk) (a : Agenda) (edits : List Edit) :
    a.edited disk edits = a.editedOver (edits.map (disk, ·)) := by
  rw [editedOver, List.foldl_map]
  rfl

/-- A run of edits is the run of those that do not fail. -/
theorem Agenda.editedOver_filter (a : Agenda) (steps : List (Disk × Edit)) :
    a.editedOver (steps.filter fun step => !step.2.fails step.1) = a.editedOver steps := by
  induction steps generalizing a with
  | nil => rfl
  | cons step steps ih =>
    by_cases h : step.2.fails step.1
    · rw [List.filter_cons_of_neg (by simp [h]), ih, editedOver_cons, Edit.apply_of_fails h]
    · rw [List.filter_cons_of_pos (by simpa using h), editedOver_cons, editedOver_cons, ih]

/-- Reading fails if and only if the reader ends with a fault, and with that fault:
whatever lines came before it, nothing is recorded and no agenda is made of them.
Otherwise the result is one of all the bytes. An edit that fails leaves the agenda
that is held, and so a run of edits is the run of those that do not fail. -/
theorem Agenda.ofReader_whole_or_nothing :
    (∀ r e, ofReader r = .error e ↔ ∃ f, r.fault = some f ∧ e = .unread f) ∧
    (∀ r, (Loading.run r).outcome = some (ofReader r) ∧
      ∀ n, ((r.items.take n).foldl Loading.take .start).Silent) ∧
    (∀ chunks f, Import.ofReader ⟨chunks, some f⟩ = .error (.unread f) ∧
      (Loading.run ⟨chunks, some f⟩).Silent) ∧
    (∀ chunks,
      let imported := Import.ofLines (Reader.linesOf chunks.flatten)
      Import.ofReader ⟨chunks, none⟩ = .ok imported ∧
      ofReader ⟨chunks, none⟩ = .ok imported.agenda ∧
      (Loading.run ⟨chunks, none⟩).events = imported.events) ∧
    (∀ a before disk e err, Edit.result disk (editedOver a before) e = .error err →
      editedOver a (before ++ [(disk, e)]) = editedOver a before) ∧
    (∀ disk a e, (∃ err, Edit.result disk a e = .error err) ↔ e.fails disk) ∧
    (∀ a steps,
      editedOver a steps = editedOver a (steps.filter fun step => !step.2.fails step.1)) ∧
    ∀ disk a edits, edited disk a edits = editedOver a (edits.map (disk, ·)) := by
  refine ⟨ofReader_error_iff,
    fun r => ⟨Loading.run_outcome r, fun n => Loading.silent_start.foldl_take _⟩,
    fun chunks f => ⟨?fault, ?silent⟩,
    fun chunks => ⟨Import.ofReader_eq chunks, ofReader_eq chunks, ?events⟩,
    fun a before disk e err herr => ?held, Edit.exists_result_error_iff,
    fun a steps => (editedOver_filter a steps).symm, edited_eq_editedOver⟩
  case fault => rw [Import.ofReader, Reader.lines_fault]
  case silent =>
    rw [Loading.run_fault]
    exact ⟨rfl, fun a => by simp⟩
  case events => rw [Loading.run_eq]
  case held => rw [editedOver_concat, Edit.apply_of_error herr]

-- A fault within the second line: the first one is whole and makes a reminder, but it is not
-- imported. Of the agendas that are held, neither the first nor the loaded one is empty.
theorem Agenda.ofReader_whole_or_nothing_broken :
    let broken : Reader :=
      ⟨["Pay rent; m", "on 9-17\nCa"].map fun part => Utf8.encode part.toList,
        some (.other "lost")⟩
    let empty : Disk := fun _ => .error .notFound
    let full : Disk := fun _ => .ok ⟨[Utf8.encode "Run; sat 8-9".toList], none⟩
    let held := ofLines ["Sleep; sun 22-23"]
    let loaded := held.editedOver [(full, .load "week.txt")]
    (Loading.run broken).lines = ["Pay rent; mon 9-17"] ∧
    (ofLines (Loading.run broken).lines).reminders.map Reminder.label = ["Pay rent"] ∧
    (Loading.run broken).Silent ∧
    ofReader broken = .error (.unread (.other "lost")) ∧
    held.labelsAt ⟨.sun, ⟨1350, by decide⟩⟩ = ["Sleep"] ∧
    held.editedOver [(empty, .read broken)] = held ∧
    loaded.labelsAt ⟨.sat, ⟨510, by decide⟩⟩ = ["Run"] ∧
    held.editedOver [(empty, .read broken), (full, .load "week.txt"), (empty, .load "week.txt")] =
      loaded := by
  intro broken empty full held loaded
  obtain ⟨hfails, -, hfault, -, hheld, -, hsteps, -⟩ := ofReader_whole_or_nothing
  have hbroken : ofReader broken = .error (.unread (.other "lost")) :=
    (hfails _ _).mpr ⟨_, rfl, rfl⟩
  exact ⟨by decide +kernel, by decide +kernel, (hfault _ _).2, hbroken, by decide +kernel,
    hheld held [] empty (.read broken) _ hbroken, by decide +kernel, hsteps held _⟩

end WeeklyAgenda

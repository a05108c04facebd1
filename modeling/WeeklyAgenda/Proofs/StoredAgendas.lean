import WeeklyAgenda.Proofs.ByteLines
import WeeklyAgenda.Proofs.Readings

/-! Agendas from stored bytes. Each line of the bytes gives its reminder by
itself, so that the agendas of two files with a line feed between them are
joined, whatever the lines hold. Lines that are stored with either line end
come back as they were. -/

namespace WeeklyAgenda

open Line Pieces

/-- How a stored line ends. -/
inductive LineEnd where
  | feed
  | returnFeed

def LineEnd.text : LineEnd → List Char
  | feed => ['\n']
  | returnFeed => ['\r', '\n']

/-- The text of some lines with their ends, and of a last line without one. -/
def storedText (lines : List (String × LineEnd)) (last : Option String) : List Char :=
  lines.flatMap (fun line => line.1.toList ++ line.2.text) ++ last.elim [] String.toList

/-- A line that no line end can be taken for a part of. -/
def IsStorable (line : String) : Prop :=
  '\n' ∉ line.toList ∧ line.toList.getLast? ≠ some '\r'

instance (line : String) : Decidable (IsStorable line) :=
  inferInstanceAs (Decidable ('\n' ∉ line.toList ∧ line.toList.getLast? ≠ some '\r'))

/-! ### Lines without a reminder -/

theorem Agenda.ofLines_eq (lines : List String) :
    ofLines lines = ⟨lines.filterMap Reminder.parse?⟩ :=
  congrArg Agenda.mk (ofLines_reminders lines)

theorem Agenda.ofLines_append (a b : List String) :
    ofLines (a ++ b) = ⟨(ofLines a).reminders ++ (ofLines b).reminders⟩ := by
  simp only [ofLines_eq, List.filterMap_append]

theorem Reminder.parse?_empty : parse? "" = none := by
  rw [parse?, parse_of_free (by simp [free_nil])]
  rfl

/-- An empty line at the end does not matter. -/
theorem Agenda.ofLines_concat_empty (lines : List String) :
    ofLines (lines ++ [""]) = ofLines lines := by
  simp [ofLines_eq, Reminder.parse?_empty]

/-! ### Isolation -/

/-- The line behind the last line feed counts or is empty. -/
theorem Agenda.ofLines_pieces (bytes : List UInt8) :
    ofLines ((pieces (· == Reader.lineFeed) bytes).map Reader.lineText) =
      ofLines (Reader.linesOf bytes) := by
  rcases eq_dropLastIf_or List.isEmpty (pieces (· == Reader.lineFeed) bytes)
    with h | ⟨line, hline, h⟩
  · rw [Reader.linesOf, Pieces.lines, ← h]
  · obtain rfl := List.isEmpty_iff.mp hline
    rw [h, List.map_append]
    exact ofLines_concat_empty _

theorem Agenda.ofLines_linesOf_append (a b : List UInt8) :
    ofLines (Reader.linesOf (a ++ Reader.lineFeed :: b)) =
      ⟨(ofLines (Reader.linesOf a)).reminders ++ (ofLines (Reader.linesOf b)).reminders⟩ := by
  rw [Reader.linesOf, lines_append_sep a b (by simp), List.map_append, ofLines_append,
    ofLines_pieces]
  rfl

/-- What stands before and after a line feed is read apart; so a line put
between two files leaves the reminders of both as they are. -/
theorem Agenda.ofReader_append_lineFeed (as bs cs : List (List UInt8))
    (h : cs.flatten = as.flatten ++ Reader.lineFeed :: bs.flatten) :
    ∃ a b : Agenda, ofReader ⟨as, none⟩ = .ok a ∧ ofReader ⟨bs, none⟩ = .ok b ∧
      ofReader ⟨cs, none⟩ = .ok ⟨a.reminders ++ b.reminders⟩ ∧
      ∀ line : List UInt8, ∃ c : Agenda, ofReader ⟨[line], none⟩ = .ok c ∧
        ofReader ⟨as ++ [Reader.lineFeed] :: line :: [Reader.lineFeed] :: bs, none⟩ =
          .ok ⟨a.reminders ++ c.reminders ++ b.reminders⟩ := by
  refine ⟨_, _, ofReader_eq as, ofReader_eq bs, ?_, fun line => ⟨_, ofReader_eq [line], ?_⟩⟩
  · rw [ofReader_eq, h, ofLines_linesOf_append]
  · rw [ofReader_eq]
    simp only [List.flatten_append, List.flatten_cons, List.flatten_nil, List.append_nil,
      List.singleton_append, ofLines_linesOf_append, List.append_assoc]

-- The first file ends within a character, the second in a carriage return.
theorem Agenda.ofReader_append_lineFeed_cut_off :
    [Utf8.encode "tea; sun 9-10;".toList, [0xE2, 0x82, 0x0A],
        Utf8.encode "é; mon 8-9\r".toList].flatten =
      [Utf8.encode "tea; sun 9-10;".toList, [0xE2, 0x82]].flatten ++
        Reader.lineFeed :: [Utf8.encode "é; mon 8-9\r".toList].flatten ∧
    ∃ a b : Agenda,
      ofReader ⟨[Utf8.encode "tea; sun 9-10;".toList, [0xE2, 0x82]], none⟩ = .ok a ∧
      ofReader ⟨[Utf8.encode "é; mon 8-9\r".toList], none⟩ = .ok b ∧
      ofReader ⟨[Utf8.encode "tea; sun 9-10;".toList, [0xE2, 0x82, 0x0A],
        Utf8.encode "é; mon 8-9\r".toList], none⟩ = .ok ⟨a.reminders ++ b.reminders⟩ := by
  have h : [Utf8.encode "tea; sun 9-10;".toList, [0xE2, 0x82, 0x0A],
      Utf8.encode "é; mon 8-9\r".toList].flatten =
        [Utf8.encode "tea; sun 9-10;".toList, [0xE2, 0x82]].flatten ++
          Reader.lineFeed :: [Utf8.encode "é; mon 8-9\r".toList].flatten := by decide +kernel
  obtain ⟨a, b, ha, hb, hab, -⟩ := ofReader_append_lineFeed _ _ _ h
  exact ⟨h, a, b, ha, hb, hab⟩

/-! ### Written files -/

theorem textLines_append {part : List Char} (rest : List Char) (h : Free (· == '\n') part) :
    textLines (part ++ '\n' :: rest) =
      String.ofList (dropLastIf (· == '\r') part) :: textLines rest := by
  rw [textLines, lines_append_sep part rest (by simp), pieces_of_free h]
  rfl

theorem textLines_of_free {part : List Char} (h : Free (· == '\n') part) :
    textLines part =
      if part.isEmpty then [] else [String.ofList (dropLastIf (· == '\r') part)] := by
  rw [textLines, lines_of_free h]
  split <;> rfl

theorem IsStorable.dropLastIf_eq {line : String} (h : IsStorable line) :
    dropLastIf (· == '\r') line.toList = line.toList := by
  refine dropLastIf_eq_self fun c hc => ?_
  simp only [beq_eq_false_iff_ne]
  rintro rfl
  exact h.2 hc

/-- A stored line with its end is that line and what follows it. -/
theorem textLines_line {line : String} (h : IsStorable line) (ending : LineEnd) (rest : List Char) :
    textLines (line.toList ++ ending.text ++ rest) = line :: textLines rest := by
  have hfree : Free (· == '\n') line.toList := free_beq.mpr h.1
  cases ending with
  | feed =>
    rw [LineEnd.text, List.append_assoc, List.singleton_append, textLines_append rest hfree,
      h.dropLastIf_eq, String.ofList_toList]
  | returnFeed =>
    have hreturn : Free (· == '\n') (line.toList ++ ['\r']) := hfree.append (by decide)
    rw [LineEnd.text, List.append_cons, List.append_assoc, List.singleton_append,
      textLines_append rest hreturn, dropLastIf_concat, if_pos (beq_self_eq_true '\r'),
      String.ofList_toList]

theorem textLines_storedText {lines : List (String × LineEnd)}
    (h : ∀ line ∈ lines.map Prod.fst, IsStorable line) (last : Option String) :
    textLines (storedText lines last) =
      lines.map Prod.fst ++ textLines (last.elim [] String.toList) := by
  induction lines with
  | nil => rfl
  | cons line lines ih =>
    have hline : IsStorable line.1 := h line.1 (by simp)
    have hcons : storedText (line :: lines) last =
        line.1.toList ++ line.2.text ++ storedText lines last := by simp [storedText]
    rw [hcons, textLines_line hline, ih fun l hl => h l (List.mem_cons_of_mem _ hl), List.map_cons,
      List.cons_append]

/-- A last line without an end is a line unless it is empty. -/
theorem textLines_last {last : Option String} (h : ∀ line ∈ last, IsStorable line) :
    textLines (last.elim [] String.toList) = last.toList ∨
      last = some "" ∧ textLines (last.elim [] String.toList) = [] := by
  cases last with
  | none => exact .inl rfl
  | some line =>
    have hline : IsStorable line := h line rfl
    rw [Option.elim_some, textLines_of_free (free_beq.mpr hline.1), hline.dropLastIf_eq,
      String.ofList_toList]
    by_cases hempty : line = ""
    · exact .inr (by simp [hempty])
    · exact .inl (by simp [hempty])

/-- Lines that are stored with any line ends, the last one with or without,
give their agenda back, read from the bytes or from a file that holds them. -/
theorem Agenda.ofReader_storedText {lines : List (String × LineEnd)} {last : Option String}
    (hlines : ∀ line ∈ lines.map Prod.fst ++ last.toList, IsStorable line)
    (chunks : List (List UInt8)) (hchunks : chunks.flatten = Utf8.encode (storedText lines last)) :
    ofReader ⟨chunks, none⟩ = .ok (ofLines (lines.map Prod.fst ++ last.toList)) ∧
      ∀ (disk : Disk) (path : String), disk path = .ok ⟨chunks, none⟩ →
        load disk path = .ok (ofLines (lines.map Prod.fst ++ last.toList)) := by
  have hread : ofReader ⟨chunks, none⟩ = .ok (ofLines (lines.map Prod.fst ++ last.toList)) := by
    have hlast : ∀ line ∈ last, IsStorable line := fun line h =>
      hlines line (List.mem_append_right _ (Option.mem_toList.mpr h))
    rw [ofReader_eq, hchunks, Reader.linesOf_eq_textLines, Utf8.decode_encode,
      textLines_storedText fun line h => hlines line (List.mem_append_left _ h)]
    rcases textLines_last hlast with h | ⟨rfl, h⟩
    · rw [h]
    · rw [h, List.append_nil, Option.toList_some, ofLines_concat_empty]
  exact ⟨hread, fun disk path hpath => (load_of_open hpath).trans hread⟩

theorem Agenda.ofReader_storedText_mixed :
    (∀ line ∈ [("é; sun 9-10", LineEnd.returnFeed), ("", .feed)].map Prod.fst ++
        (some "a\rb; t2 8-9").toList, IsStorable line) ∧
    ofReader ⟨[Utf8.encode "é; sun 9-10\r".toList, Utf8.encode "\n\na\rb; t2 8-9".toList], none⟩ =
      .ok (ofLines ["é; sun 9-10", "", "a\rb; t2 8-9"]) ∧
    load (fun _ => .ok ⟨[Utf8.encode "é; sun 9-10\r".toList,
        Utf8.encode "\n\na\rb; t2 8-9".toList], none⟩) "week.txt" =
      .ok (ofLines ["é; sun 9-10", "", "a\rb; t2 8-9"]) := by
  have hlines : ∀ line ∈ [("é; sun 9-10", LineEnd.returnFeed), ("", .feed)].map Prod.fst ++
      (some "a\rb; t2 8-9").toList, IsStorable line := by decide
  have h := ofReader_storedText hlines [Utf8.encode "é; sun 9-10\r".toList,
    Utf8.encode "\n\na\rb; t2 8-9".toList] (by decide +kernel)
  exact ⟨hlines, h.1, h.2 _ "week.txt" rfl⟩

end WeeklyAgenda

import Mathlib.Logic.Relation
import WeeklyAgenda.Proofs.ActiveLines

/-! Edits of a line that do not change what is read from it. A word without a
meaning, separators where they neither join nor cut words, a clause that lacks a
day or a time and blanks around the label may be put in and taken out, in any
order and as often as one likes. -/

namespace WeeklyAgenda

open Line Pieces

/-! ### Edits -/

/-- Some word of the segment is a day or a span of days. -/
def Line.NamesDay (segment : List Char) : Prop :=
  ∃ word r, IsWord word segment ∧ Meaning.ofWord word = .day r

/-- Some word of the segment is a time range. -/
def Line.NamesTime (segment : List Char) : Prop :=
  ∃ word r, IsWord word segment ∧ Meaning.ofWord word = .time r

/-- The second text is the first one with something put in that is not understood.
Words and separators go behind the first semicolon, and a clause goes where one ends
or begins. -/
inductive Line.IdleInsertion : List Char → List Char → Prop
  | word {front word back : List Char} (behind : ';' ∈ front) (begun : Begun isWordEnd front)
      (ended : Ended isWordEnd back) (nonempty : word ≠ []) (free : Free isWordEnd word)
      (ignored : ∃ w, Meaning.ofWord word = .ignored w) :
      IdleInsertion (front ++ back) (front ++ word ++ back)
  | gap {front gap back : List Char} (behind : ';' ∈ front)
      (separators : ∀ c ∈ gap, isSeparator c = true)
      (apart : Begun isWordEnd front ∨ Ended isWordEnd back) :
      IdleInsertion (front ++ back) (front ++ gap ++ back)
  | clause {front segment back : List Char} (remains : ';' ∈ front ++ back) (free : ';' ∉ segment)
      (ended : Ended isSemicolon back) (lacks : ¬ (NamesDay segment ∧ NamesTime segment)) :
      IdleInsertion (front ++ back) (front ++ ';' :: segment ++ back)
  | blanks {before label after rest : List Char} (free : ';' ∉ label)
      (blank_before : ∀ c ∈ before, Blank.isBlank c = true)
      (blank_after : ∀ c ∈ after, Blank.isBlank c = true) :
      IdleInsertion (label ++ ';' :: rest) (before ++ label ++ after ++ ';' :: rest)

/-- Something is put in or taken out. -/
def Line.IdleEdit (line line' : String) : Prop :=
  IdleInsertion line.toList line'.toList ∨ IdleInsertion line'.toList line.toList

/-! ### Segments -/

theorem Line.Meaning.filterMap_words_eq_nil_iff {α : Type} (f : Meaning → Option α)
    (segment : List Char) :
    ((words isSeparator segment).filterMap fun word => f (ofWord word)) = [] ↔
      ¬ ∃ word a, IsWord word segment ∧ f (ofWord word) = some a := by
  simp only [List.filterMap_eq_nil_iff, IsWord, ← mem_words_iff,
    Option.eq_none_iff_forall_ne_some, ne_eq, not_exists, not_and]
  exact ⟨fun h word a hw => h word hw a, fun h word hw a => h word a hw⟩

theorem Line.daysOf_eq_nil_iff {segment : List Char} :
    daysOf segment = [] ↔ ¬ NamesDay segment := by
  simp only [NamesDay, ← Meaning.day?_eq_some_iff]
  exact Meaning.filterMap_words_eq_nil_iff Meaning.day? segment

theorem Line.timesOf_eq_nil_iff {segment : List Char} :
    timesOf segment = [] ↔ ¬ NamesTime segment := by
  simp only [NamesTime, ← Meaning.time?_eq_some_iff]
  exact Meaning.filterMap_words_eq_nil_iff Meaning.time? segment

theorem Window.ofSegment?_of_lacks {segment : List Char}
    (h : ¬ (NamesDay segment ∧ NamesTime segment)) : ofSegment? segment = none := by
  rw [ofSegment?_eq_none_iff, daysOf_eq_nil_iff, timesOf_eq_nil_iff]
  exact not_and_or.mp h

/-- A word without a meaning adds no day and no time. -/
theorem Window.ofSegment?_insert_word {front word back : List Char} (hf : Begun isSeparator front)
    (hb : Ended isSeparator back) (hne : word ≠ []) (hfree : Free isSeparator word)
    (h : ∃ w, Meaning.ofWord word = .ignored w) :
    ofSegment? (front ++ word ++ back) = ofSegment? (front ++ back) := by
  obtain ⟨w, hw⟩ := h
  have hdays : daysOf word = [] := by simp [daysOf, words_of_free hfree hne, hw, Meaning.day?]
  have htimes : timesOf word = [] := by simp [timesOf, words_of_free hfree hne, hw, Meaning.time?]
  rw [List.append_assoc]
  apply ofSegment?_congr
  · rw [daysOf_append (.inl hf), daysOf_append (.inr hb), hdays, daysOf_append (.inl hf)]
    rfl
  · rw [timesOf_append (.inl hf), timesOf_append (.inr hb), htimes, timesOf_append (.inl hf)]
    rfl

theorem Window.ofSegment?_insert_gap {front gap back : List Char}
    (hgap : ∀ c ∈ gap, isSeparator c = true)
    (h : Begun isSeparator front ∨ Ended isSeparator back) :
    ofSegment? (front ++ gap ++ back) = ofSegment? (front ++ back) := by
  rw [ofSegment?, words_insert_gap hgap h, ofSegment?]

/-! ### Lines -/

namespace Reminder

variable {line line' : String}

/-- A line is read as another one with the same label, up to blanks, and the same
windows. -/
theorem parse_congr {label label' : List Char} {segments segments' : List (List Char)}
    (hm : ';' ∈ line.toList) (hm' : ';' ∈ line'.toList)
    (h : pieces isSemicolon line.toList = label :: segments)
    (h' : pieces isSemicolon line'.toList = label' :: segments')
    (hlabel : Blank.trim label = Blank.trim label')
    (hwindows : segments.filterMap Window.ofSegment? = segments'.filterMap Window.ofSegment?) :
    parse line = parse line' := by
  rw [parse_pieces hm h, parse_pieces hm' h', hlabel, hwindows]

/-- What is put in behind the first semicolon and brings none itself makes a
difference to one segment only. -/
theorem parse_insert {front inserted back : List Char} (hline : line.toList = front ++ back)
    (hline' : line'.toList = front ++ inserted ++ back) (hm : ';' ∈ front)
    (hfree : Free isSemicolon inserted)
    (h : ∀ l r, (Begun isWordEnd front → Begun isSeparator l) →
      (Ended isWordEnd back → Ended isSeparator r) →
      Window.ofSegment? (l ++ inserted ++ r) = Window.ofSegment? (l ++ r)) :
    parse line' = parse line := by
  -- the segment concerned is the last one of the front, up to the first semicolon of the back
  obtain ⟨far, l, rfl, hl⟩ := exists_last_segment hm
  obtain ⟨label, segments, hfar⟩ := exists_pieces_eq_cons isSemicolon far
  obtain ⟨r, others, hback⟩ := exists_pieces_eq_cons isSemicolon back
  have hinserted : pieces isSemicolon (inserted ++ back) = (inserted ++ r) :: others := by
    rw [pieces_free_append hfree, hback]
    rfl
  have hparts : pieces isSemicolon line.toList = label :: (segments ++ (l ++ r) :: others) := by
    rw [hline, pieces_append_last hl hback, hfar, List.cons_append]
  have hparts' : pieces isSemicolon line'.toList =
      label :: (segments ++ (l ++ inserted ++ r) :: others) := by
    rw [hline', List.append_assoc, pieces_append_last hl hinserted, hfar, List.cons_append,
      List.append_assoc]
  refine parse_congr (by simp [hline']) (by simp [hline]) hparts' hparts rfl ?_
  rw [List.filterMap_append, List.filterMap_append, List.filterMap_cons, List.filterMap_cons,
    h l r (begun_isSeparator hl) (ended_isSeparator hback)]

/-- A clause without a window leaves no trace. -/
theorem parse_insert_clause {front segment back : List Char} (hline : line.toList = front ++ back)
    (hline' : line'.toList = front ++ ';' :: segment ++ back) (hm : ';' ∈ front ++ back)
    (hfree : ';' ∉ segment) (hended : Ended isSemicolon back)
    (hnone : Window.ofSegment? segment = none) : parse line' = parse line := by
  obtain ⟨label, segments, hfront⟩ := exists_pieces_eq_cons isSemicolon front
  have hparts : pieces isSemicolon line.toList =
      label :: (segments ++ (pieces isSemicolon back).tail) := by
    rw [hline, pieces_append_of_ended front hended, hfront, List.cons_append]
  have hparts' : pieces isSemicolon line'.toList =
      label :: (segments ++ [segment] ++ (pieces isSemicolon back).tail) := by
    rw [hline', pieces_append_of_ended _ hended, pieces_append_sep front segment rfl, hfront,
      pieces_of_free (free_isSemicolon.mpr hfree), List.cons_append, List.cons_append]
  refine parse_congr (by simp [hline']) (hline ▸ hm) hparts' hparts rfl ?_
  rw [List.filterMap_append, List.filterMap_append, List.filterMap_append]
  simp [hnone]

theorem parse_surround_label {before label after rest : List Char}
    (hline : line.toList = label ++ ';' :: rest)
    (hline' : line'.toList = before ++ label ++ after ++ ';' :: rest) (hfree : ';' ∉ label)
    (hb : ∀ c ∈ before, Blank.isBlank c = true) (ha : ∀ c ∈ after, Blank.isBlank c = true) :
    parse line' = parse line := by
  have hfree' : ';' ∉ before ++ label ++ after := by
    simp [hfree, Blank.free_of_isBlank hb, Blank.free_of_isBlank ha]
  rw [parse_split hline' (free_isSemicolon.mpr hfree'),
    parse_split hline (free_isSemicolon.mpr hfree), Blank.trim_surround hb label ha]

/-- What is put in is not read. -/
theorem parse_of_idleInsertion (h : IdleInsertion line.toList line'.toList) :
    parse line' = parse line := by
  -- the texts are generalized so that the cases can say what they are
  generalize hs : line.toList = s at h
  generalize ht : line'.toList = t at h
  cases h with
  | word behind begun ended nonempty free ignored =>
    obtain ⟨hseparator, hsemicolon⟩ := free_isWordEnd.mp free
    exact parse_insert hs ht behind hsemicolon fun l r hl hr =>
      Window.ofSegment?_insert_word (hl begun) (hr ended) nonempty hseparator ignored
  | gap behind separators apart =>
    have hsemicolon : Free isSemicolon _ := free_isSemicolon.mpr fun hm =>
      absurd (separators ';' hm) (by decide)
    exact parse_insert hs ht behind hsemicolon fun l r hl hr =>
      Window.ofSegment?_insert_gap separators (apart.imp hl hr)
  | clause remains free ended lacks =>
    exact parse_insert_clause hs ht remains free ended (Window.ofSegment?_of_lacks lacks)
  | blanks free blank_before blank_after =>
    exact parse_surround_label hs ht free blank_before blank_after

theorem parse_of_idleEdit (h : IdleEdit line line') : parse line' = parse line := by
  rcases h with h | h
  · exact parse_of_idleInsertion h
  · exact (parse_of_idleInsertion h).symm

/-- What is not understood does not matter, however often something of the kind is put
in and taken out. -/
theorem parse_of_idleEdits (h : Relation.ReflTransGen IdleEdit line line') :
    parse line' = parse line := by
  induction h with
  | refl => rfl
  | tail _ hedit ih => exact (parse_of_idleEdit hedit).trans ih

-- A word is taken out; then blanks, separators and a clause without a time are put in.
theorem parse_of_idleEdits_four_kinds :
    Relation.ReflTransGen IdleEdit "Call;9-25 mon 9-10" "\t Call ;, mon 9-10; tue at 9-25" ∧
      parse "\t Call ;, mon 9-10; tue at 9-25" =
        .ok ⟨"Call", ⟨[⟨.ofList [.on .mon],
          .ofList [⟨⟨540, by decide⟩, ⟨600, by decide⟩⟩]⟩]⟩⟩ := by
  have hword : IdleEdit "Call;9-25 mon 9-10" "Call; mon 9-10" :=
    .inr (@IdleInsertion.word "Call;".toList "9-25".toList " mon 9-10".toList (by decide)
      (by decide) (by decide) (by decide) (by decide) ⟨⟨.timeRange, "9-25"⟩, by decide⟩)
  have hblanks : IdleEdit "Call; mon 9-10" "\t Call ; mon 9-10" :=
    .inl (@IdleInsertion.blanks "\t ".toList "Call".toList " ".toList " mon 9-10".toList
      (by decide) (List.all_eq_true.mp (by decide)) (List.all_eq_true.mp (by decide)))
  have hgap : IdleEdit "\t Call ; mon 9-10" "\t Call ;, mon 9-10" :=
    .inl (@IdleInsertion.gap "\t Call ;".toList ",".toList " mon 9-10".toList (by decide)
      (List.all_eq_true.mp (by decide)) (.inl (by decide)))
  have hclause : IdleEdit "\t Call ;, mon 9-10" "\t Call ;, mon 9-10; tue at 9-25" :=
    .inl (@IdleInsertion.clause "\t Call ;, mon 9-10".toList " tue at 9-25".toList [] (by decide)
      (by decide) (by decide) fun names => timesOf_eq_nil_iff.mp (by decide) names.2)
  have hedits : Relation.ReflTransGen IdleEdit "Call;9-25 mon 9-10"
      "\t Call ;, mon 9-10; tue at 9-25" :=
    (((Relation.ReflTransGen.refl.tail hword).tail hblanks).tail hgap).tail hclause
  exact ⟨hedits, (parse_of_idleEdits hedits).trans (by decide +kernel)⟩

end Reminder

end WeeklyAgenda

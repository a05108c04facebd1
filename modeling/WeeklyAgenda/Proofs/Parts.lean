import Mathlib.Data.List.Forall2
import Mathlib.Data.List.TakeWhile
import WeeklyAgenda.Text.Pieces

/-! The parts of a list that is cut at its separators. A part is free of
separators and reaches as far as it can on both sides; the words are the parts
that are not empty. Facts about all parts go by induction on the first part. -/

namespace WeeklyAgenda.Pieces

variable {α : Type} {isSep : α → Bool}

def Free (isSep : α → Bool) (part : List α) : Prop := ∀ a ∈ part, isSep a = false

instance (part : List α) : Decidable (Free isSep part) :=
  inferInstanceAs (Decidable (∀ a ∈ part, isSep a = false))

/-- Nothing follows, or a separator does. -/
def Ended (isSep : α → Bool) (rest : List α) : Prop := ∀ a ∈ rest.head?, isSep a = true

/-- Nothing comes before, or a separator does. -/
def Begun (isSep : α → Bool) (front : List α) : Prop := ∀ a ∈ front.getLast?, isSep a = true

instance (front : List α) : Decidable (Begun isSep front) :=
  inferInstanceAs (Decidable (∀ a ∈ front.getLast?, isSep a = true))

instance (rest : List α) : Decidable (Ended isSep rest) :=
  inferInstanceAs (Decidable (∀ a ∈ rest.head?, isSep a = true))

/-- A stretch of the text that is free of separators and has none but
separators, or nothing, next to it. -/
def IsPart (isSep : α → Bool) (part text : List α) : Prop :=
  ∃ before after, text = before ++ part ++ after ∧ Free isSep part ∧
    (∀ a ∈ before.getLast?, isSep a = true) ∧ Ended isSep after

/-- The words of a text in order, with separators around and between them. -/
inductive Spaced (isSep : α → Bool) : List (List α) → List α → Prop
  | gap {gap : List α} (separators : ∀ a ∈ gap, isSep a = true) : Spaced isSep [] gap
  | word {gap word rest : List α} {words : List (List α)}
      (separators : ∀ a ∈ gap, isSep a = true) (nonempty : word ≠ []) (free : Free isSep word)
      (ended : Ended isSep rest) (others : Spaced isSep words rest) :
      Spaced isSep (word :: words) (gap ++ word ++ rest)

theorem ended_nil : Ended isSep ([] : List α) := by simp [Ended]

theorem ended_cons {s : α} {rest : List α} : Ended isSep (s :: rest) ↔ isSep s = true := by
  simp [Ended]

theorem Begun.eq_nil_or {front : List α} (h : Begun isSep front) :
    front = [] ∨ ∃ before s, front = before ++ [s] ∧ isSep s = true := by
  rcases front.eq_nil_or_concat with rfl | ⟨before, s, rfl⟩
  · exact .inl rfl
  · exact .inr ⟨before, s, List.concat_eq_append, h s (by simp)⟩

theorem Begun.near {front last : List α} (h : Begun isSep front) (hl : last <:+ front) :
    Begun isSep last := by
  obtain ⟨far, rfl⟩ := hl
  intro a ha
  exact h a (by rw [List.getLast?_append, ha]; rfl)

theorem Ended.near {rest first : List α} (h : Ended isSep rest) (hf : first <+: rest) :
    Ended isSep first := by
  obtain ⟨far, rfl⟩ := hf
  intro a ha
  exact h a (by rw [List.head?_append, ha]; rfl)

theorem Ended.eq_nil_or {rest : List α} (h : Ended isSep rest) :
    rest = [] ∨ ∃ s tail, rest = s :: tail ∧ isSep s = true := by
  cases rest with
  | nil => exact .inl rfl
  | cons s tail => exact .inr ⟨s, tail, rfl, ended_cons.mp h⟩

theorem free_nil : Free isSep ([] : List α) := by simp [Free]

theorem free_cons {a : α} {part : List α} :
    Free isSep (a :: part) ↔ isSep a = false ∧ Free isSep part := by simp [Free]

theorem free_beq [BEq α] [LawfulBEq α] {s : α} {part : List α} :
    Free (· == s) part ↔ s ∉ part := by
  simp only [Free, beq_eq_false_iff_ne, ne_eq]
  exact ⟨fun h hm => h s hm rfl, fun h a ha e => h (e ▸ ha)⟩

theorem Free.append {p q : List α} (hp : Free isSep p) (hq : Free isSep q) :
    Free isSep (p ++ q) := by
  intro a ha
  rcases List.mem_append.mp ha with h | h
  · exact hp a h
  · exact hq a h

theorem Free.append_cons {p q : List α} {a : α} (hp : Free isSep p) (ha : isSep a = false)
    (hq : Free isSep q) : Free isSep (p ++ a :: q) := hp.append (free_cons.mpr ⟨ha, hq⟩)

theorem Free.intercalate {gap : List α} (hgap : Free isSep gap) {texts : List (List α)}
    (h : ∀ t ∈ texts, Free isSep t) : Free isSep (gap.intercalate texts) := by
  induction texts with
  | nil => exact free_nil
  | cons t texts ih =>
    cases texts with
    | nil => simpa using h t (by simp)
    | cons u texts =>
      rw [List.intercalate_cons_cons]
      exact ((h t (by simp)).append hgap).append (ih fun v hv => h v (by simp [hv]))

/-! ### The first part -/

/-- A text without separators, or its first part and what follows the first
separator. -/
theorem free_or_split (isSep : α → Bool) (text : List α) :
    Free isSep text ∨
      ∃ part s rest, text = part ++ s :: rest ∧ Free isSep part ∧ isSep s = true := by
  induction text with
  | nil => exact .inl free_nil
  | cons a text ih =>
    cases ha : isSep a with
    | true => exact .inr ⟨[], a, text, rfl, free_nil, ha⟩
    | false =>
      rcases ih with h | ⟨part, s, rest, rfl, hp, hs⟩
      · exact .inl (free_cons.mpr ⟨ha, h⟩)
      · exact .inr ⟨a :: part, s, rest, rfl, free_cons.mpr ⟨ha, hp⟩, hs⟩

/-- Induction on a text from its last part to its first. -/
theorem parts_induction (isSep : α → Bool) {motive : List α → Prop}
    (last : ∀ text, Free isSep text → motive text)
    (first : ∀ part s rest, Free isSep part → isSep s = true → motive rest →
      motive (part ++ s :: rest)) (text : List α) : motive text := by
  rcases free_or_split isSep text with h | ⟨part, s, rest, heq, hp, hs⟩
  · exact last text h
  · have hlt : rest.length < text.length := by simp [heq]; omega
    exact heq ▸ first part s rest hp hs (parts_induction isSep last first rest)
termination_by text.length

/-- The first part is determined by where it ends. -/
theorem Free.append_inj {p q after rest : List α} (hp : Free isSep p) (hq : Free isSep q)
    (ha : Ended isSep after) (hr : Ended isSep rest) (h : p ++ after = q ++ rest) :
    p = q ∧ after = rest := by
  induction p generalizing q with
  | nil =>
    cases q with
    | nil => exact ⟨rfl, h⟩
    | cons b q =>
      subst h
      have := ended_cons.mp ha
      simp [(free_cons.mp hq).1] at this
  | cons a p ih =>
    cases q with
    | nil =>
      simp only [List.nil_append] at h
      subst h
      have := ended_cons.mp hr
      simp [(free_cons.mp hp).1] at this
    | cons b q =>
      obtain ⟨rfl, htail⟩ := List.cons.inj h
      obtain ⟨rfl, hrest⟩ := ih (free_cons.mp hp).2 (free_cons.mp hq).2 htail
      exact ⟨rfl, hrest⟩

/-! ### Cutting -/

theorem pieces_eq_splitOnP (text : List α) : pieces isSep text = text.splitOnP isSep := by
  induction text with
  | nil => rfl
  | cons a text ih =>
    rw [List.splitOnP_cons_eq_if_modifyHead, ← ih]
    simp only [pieces, cut]
    split <;> simp

theorem pieces_of_free {text : List α} (h : Free isSep text) : pieces isSep text = [text] := by
  rw [pieces_eq_splitOnP, List.splitOnP_eq_singleton h]

theorem pieces_append_sep (a b : List α) {s : α} (hs : isSep s = true) :
    pieces isSep (a ++ s :: b) = pieces isSep a ++ pieces isSep b := by
  simp only [pieces_eq_splitOnP, List.splitOnP_append_cons a b hs]

theorem pieces_part {part : List α} {s : α} (rest : List α) (hp : Free isSep part)
    (hs : isSep s = true) : pieces isSep (part ++ s :: rest) = part :: pieces isSep rest := by
  rw [pieces_append_sep part rest hs, pieces_of_free hp, List.singleton_append]

theorem pieces_cons_sep {s : α} (rest : List α) (hs : isSep s = true) :
    pieces isSep (s :: rest) = [] :: pieces isSep rest := pieces_part rest free_nil hs

theorem pieces_cons_free {a : α} (rest : List α) (ha : isSep a = false) :
    pieces isSep (a :: rest) = (pieces isSep rest).modifyHead (a :: ·) := by
  simp [pieces_eq_splitOnP, List.splitOnP_cons_eq_if_modifyHead, ha]

/-- What stands in front of the first separator belongs to the first part. -/
theorem pieces_free_append {part : List α} (hp : Free isSep part) (rest : List α) :
    pieces isSep (part ++ rest) = (pieces isSep rest).modifyHead (part ++ ·) := by
  rcases free_or_split isSep rest with h | ⟨q, s, tail, rfl, hq, hs⟩
  · rw [pieces_of_free h, pieces_of_free (hp.append h)]
    rfl
  · rw [pieces_part tail hq hs, ← List.append_assoc, pieces_part tail (hp.append hq) hs]
    rfl

/-- A text is cut in two at its only separator. -/
theorem pieces_eq_pair_iff {text a b : List α} :
    pieces isSep text = [a, b] ↔
      ∃ s, isSep s = true ∧ text = a ++ s :: b ∧ Free isSep a ∧ Free isSep b := by
  constructor
  · intro h
    rcases free_or_split isSep text with hf | ⟨part, s, rest, rfl, hp, hs⟩
    · simp [pieces_of_free hf] at h
    · rw [pieces_part rest hp hs] at h
      obtain ⟨rfl, hrest⟩ := List.cons.inj h
      rcases free_or_split isSep rest with hf | ⟨q, x, tail, rfl, hq, hx⟩
      · rw [pieces_of_free hf] at hrest
        obtain ⟨rfl, -⟩ := List.cons.inj hrest
        exact ⟨s, hs, rfl, hp, hf⟩
      · rw [pieces_part tail hq hx] at hrest
        simp [pieces] at hrest
  · rintro ⟨s, hs, rfl, ha, hb⟩
    rw [pieces_part b ha hs, pieces_of_free hb]

/-- The words are the parts that are left when empty ones are dropped. -/
theorem filter_splitOn (c : Char) (text : List Char) :
    (text.splitOn c).filter (fun part => part ≠ []) = words (· == c) text := by
  simp only [words, pieces_eq_splitOnP, List.splitOn_eq_splitOnP]
  congr 1
  funext part
  cases part <;> rfl

theorem words_nil : words isSep ([] : List α) = [] := rfl

theorem words_of_free {text : List α} (h : Free isSep text) (hne : text ≠ []) :
    words isSep text = [text] := by
  simp [words, pieces_of_free h, hne]

theorem words_append_sep (a b : List α) {s : α} (hs : isSep s = true) :
    words isSep (a ++ s :: b) = words isSep a ++ words isSep b := by
  simp only [words, pieces_append_sep a b hs, List.filter_append]

/-- A character that is no separator opens the first word. -/
theorem words_cons_free {a : α} (ha : isSep a = false) (rest : List α) :
    ∃ part others, words isSep (a :: rest) = (a :: part) :: others := by
  obtain ⟨part, others, h⟩ := List.exists_cons_of_ne_nil
    (show pieces isSep rest ≠ [] by simp [pieces])
  rw [words, pieces_cons_free rest ha, h]
  exact ⟨part, _, rfl⟩

theorem words_cons_sep (b : List α) {s : α} (hs : isSep s = true) :
    words isSep (s :: b) = words isSep b := words_append_sep [] b hs

/-- At a separator, or at either end, the words of a text are those of its two
sides. -/
theorem words_append {a b : List α} (h : Begun isSep a ∨ Ended isSep b) :
    words isSep (a ++ b) = words isSep a ++ words isSep b := by
  rcases h with ha | hb
  · rcases ha.eq_nil_or with rfl | ⟨before, s, rfl, hs⟩
    · rfl
    · rw [List.append_assoc, List.singleton_append, words_append_sep _ _ hs,
        words_append_sep _ _ hs, words_nil, List.append_nil]
  · rcases hb.eq_nil_or with rfl | ⟨s, rest, rfl, hs⟩
    · rw [words_nil, List.append_nil, List.append_nil]
    · rw [words_append_sep _ _ hs, words_cons_sep _ hs]

theorem words_gap_append {gap : List α} (h : ∀ a ∈ gap, isSep a = true) (rest : List α) :
    words isSep (gap ++ rest) = words isSep rest := by
  induction gap with
  | nil => rfl
  | cons a gap ih =>
    rw [List.cons_append, words_cons_sep _ (h a (by simp))]
    exact ih fun b hb => h b (by simp [hb])

theorem words_append_gap {gap : List α} (h : ∀ a ∈ gap, isSep a = true) (text : List α) :
    words isSep (text ++ gap) = words isSep text := by
  cases gap with
  | nil => rw [List.append_nil]
  | cons a gap =>
    have hg : words isSep (gap ++ []) = [] :=
      words_gap_append (fun b hb => h b (by simp [hb])) []
    rw [List.append_nil] at hg
    rw [words_append_sep _ _ (h a (by simp)), hg, List.append_nil]

theorem words_dropWhile (text : List α) :
    words isSep (text.dropWhile isSep) = words isSep text := by
  have hgap : ∀ a ∈ text.takeWhile isSep, isSep a = true := fun a => List.mem_takeWhile_imp
  have h := words_gap_append hgap (text.dropWhile isSep)
  rw [List.takeWhile_append_dropWhile] at h
  exact h.symm

/-- Texts that are set apart by separators keep their words. -/
theorem words_intercalate {gap : List α} (hne : gap ≠ []) (hgap : gap.all isSep = true)
    (texts : List (List α)) :
    words isSep (gap.intercalate texts) = texts.flatMap (words isSep) := by
  induction texts with
  | nil => rfl
  | cons t texts ih =>
    cases texts with
    | nil => simp
    | cons u texts =>
      obtain ⟨s, gap, rfl⟩ := List.exists_cons_of_ne_nil hne
      have hsep : isSep s = true ∧ ∀ a ∈ gap, isSep a = true := by simpa using hgap
      rw [List.intercalate_cons_cons, List.append_assoc, List.cons_append,
        words_append_sep _ _ hsep.1, words_gap_append hsep.2, ih]
      rfl

theorem flatMap_words_of_free {texts : List (List α)} (h : ∀ t ∈ texts, t ≠ [] ∧ Free isSep t) :
    texts.flatMap (words isSep) = texts := by
  induction texts with
  | nil => rfl
  | cons t texts ih =>
    have ht := h t (by simp)
    rw [List.flatMap_cons, words_of_free ht.2 ht.1, ih fun u hu => h u (by simp [hu]),
      List.singleton_append]

/-! ### Concatenation -/

theorem exists_pieces_eq_cons (isSep : α → Bool) (text : List α) :
    ∃ part parts, pieces isSep text = part :: parts := ⟨_, _, rfl⟩

theorem exists_pieces_eq_concat (isSep : α → Bool) (text : List α) :
    ∃ parts part, pieces isSep text = parts ++ [part] := by
  rcases (pieces isSep text).eq_nil_or_concat with hnil | ⟨parts, part, h⟩
  · simp [pieces] at hnil
  · exact ⟨parts, part, h.trans List.concat_eq_append⟩

/-- The last part of a text and the first part of what follows become one; all
other parts stay. -/
theorem pieces_append {a b l r : List α} {ps qs : List (List α)} (ha : pieces isSep a = ps ++ [l])
    (hb : pieces isSep b = r :: qs) : pieces isSep (a ++ b) = ps ++ (l ++ r) :: qs := by
  induction a using parts_induction isSep generalizing ps with
  | last a hfree =>
    rw [pieces_of_free hfree, List.singleton_eq_append_iff] at ha
    obtain ⟨rfl, hl⟩ | ⟨-, hl⟩ := ha
    · obtain rfl := List.singleton_inj.mp hl
      rw [pieces_free_append hfree, hb]
      rfl
    · cases hl
  | first part s rest hp hs ih =>
    rw [pieces_part rest hp hs] at ha
    cases ps with
    | nil => exact absurd (List.cons.inj ha).2 (by simp [pieces])
    | cons q ps =>
      obtain ⟨rfl, hrest⟩ := List.cons.inj ha
      rw [List.append_assoc, List.cons_append, pieces_part _ hp hs, ih hrest]
      rfl

theorem suffix_of_pieces {text l : List α} {ps : List (List α)}
    (h : pieces isSep text = ps ++ [l]) : l <:+ text := by
  induction text using parts_induction isSep generalizing ps with
  | last text hfree =>
    rw [pieces_of_free hfree, List.singleton_eq_append_iff] at h
    obtain ⟨-, hl⟩ | ⟨-, hl⟩ := h
    · obtain rfl := List.singleton_inj.mp hl
      exact List.suffix_rfl
    · cases hl
  | first part s rest hp hs ih =>
    rw [pieces_part rest hp hs] at h
    cases ps with
    | nil => exact absurd (List.cons.inj h).2 (by simp [pieces])
    | cons q ps =>
      exact ((ih (List.cons.inj h).2).trans (List.suffix_cons s rest)).trans
        (List.suffix_append part _)

theorem prefix_of_pieces {text r : List α} {qs : List (List α)}
    (h : pieces isSep text = r :: qs) : r <+: text := by
  rcases free_or_split isSep text with hfree | ⟨part, s, rest, rfl, hp, hs⟩
  · rw [pieces_of_free hfree] at h
    obtain ⟨rfl, -⟩ := List.cons.inj h
    exact List.prefix_rfl
  · rw [pieces_part rest hp hs] at h
    rw [(List.cons.inj h).1]
    exact List.prefix_append _ _

/-- Separators do not matter where they join and cut no words. -/
theorem words_insert_gap {a gap b : List α} (hgap : ∀ x ∈ gap, isSep x = true)
    (h : Begun isSep a ∨ Ended isSep b) : words isSep (a ++ gap ++ b) = words isSep (a ++ b) := by
  rcases h with ha | hb
  · rw [List.append_assoc, words_append (.inl ha), words_gap_append hgap, words_append (.inl ha)]
  · rw [words_append (.inr hb), words_append_gap hgap, words_append (.inr hb)]

/-- What stands at a separator, or at the end, adds parts of its own. -/
theorem pieces_append_of_ended (a : List α) {b : List α} (hb : Ended isSep b) :
    pieces isSep (a ++ b) = pieces isSep a ++ (pieces isSep b).tail := by
  rcases hb.eq_nil_or with rfl | ⟨s, rest, rfl, hs⟩
  · rw [List.append_nil]
    exact (List.append_nil _).symm
  · rw [pieces_append_sep _ _ hs, pieces_cons_sep _ hs, List.tail_cons]

/-! ### Elementwise -/

section

variable {β : Type} {isSep' : β → Bool} {f : α → β}

theorem pieces_map (h : ∀ a, isSep' (f a) = isSep a) (text : List α) :
    pieces isSep' (text.map f) = (pieces isSep text).map (List.map f) := by
  induction text with
  | nil => rfl
  | cons a text ih =>
    rw [List.map_cons]
    cases ha : isSep a with
    | true => rw [pieces_cons_sep _ ((h a).trans ha), pieces_cons_sep _ ha, ih]; rfl
    | false =>
      rw [pieces_cons_free _ ((h a).trans ha), pieces_cons_free _ ha, ih]
      cases pieces isSep text <;> rfl

theorem words_map (h : ∀ a, isSep' (f a) = isSep a) (text : List α) :
    words isSep' (text.map f) = (words isSep text).map (List.map f) := by
  rw [words, words, pieces_map h, List.filter_map]
  congr 1
  apply List.filter_congr
  intro part _
  cases part <;> rfl

/-- Texts whose parts are related have related words, if only empty parts are
related to the empty part. -/
theorem forall₂_words {R : List α → List β → Prop} (hR : ∀ {p q}, R p q → (p = [] ↔ q = []))
    {s : List α} {t : List β} (h : List.Forall₂ R (pieces isSep s) (pieces isSep' t)) :
    List.Forall₂ R (words isSep s) (words isSep' t) := by
  unfold words
  generalize pieces isSep s = ps at h ⊢
  generalize pieces isSep' t = qs at h ⊢
  induction h with
  | nil => exact .nil
  | @cons p q ps qs hpq _ ih =>
    cases p with
    | nil =>
      obtain rfl := (hR hpq).mp rfl
      exact ih
    | cons a p =>
      cases q with
      | nil => exact absurd ((hR hpq).mpr rfl) (by simp)
      | cons b q => exact .cons hpq ih

end

/-! ### Membership -/

theorem isPart_of_free {part text : List α} (ht : Free isSep text) :
    IsPart isSep part text ↔ part = text := by
  constructor
  · rintro ⟨before, after, rfl, -, hb, ha⟩
    have hbefore : before = [] := by
      rcases before.eq_nil_or_concat with rfl | ⟨front, b, rfl⟩
      · rfl
      · have hbs := hb b (by simp)
        rw [ht b (by simp)] at hbs
        cases hbs
    have hafter : after = [] := by
      rcases ha.eq_nil_or with rfl | ⟨s, tail, rfl, hs⟩
      · rfl
      · rw [ht s (by simp)] at hs
        cases hs
    simp [hbefore, hafter]
  · rintro rfl
    exact ⟨[], [], by simp, ht, by simp, ended_nil⟩

/-- The parts of a text are its first part and those behind the first separator. -/
theorem isPart_append {part first rest : List α} {s : α} (hf : Free isSep first)
    (hs : isSep s = true) :
    IsPart isSep part (first ++ s :: rest) ↔ part = first ∨ IsPart isSep part rest := by
  constructor
  · rintro ⟨before, after, heq, hp, hb, ha⟩
    rcases before.eq_nil_or_concat with rfl | ⟨front, b, rfl⟩
    · -- the part opens the text
      exact .inl (Free.append_inj hp hf ha (ended_cons.mpr hs) (by simpa using heq.symm)).1
    · -- the part lies behind a separator, the first one or a later one
      have hbs : isSep b = true := hb b (by simp)
      right
      rcases free_or_split isSep front with hfr | ⟨p, x, tail, rfl, hpf, hx⟩
      · have h := Free.append_inj hf hfr (ended_cons.mpr hs) (ended_cons.mpr hbs)
          (by simpa using heq)
        obtain ⟨-, hrest⟩ := List.cons.inj h.2
        exact ⟨[], after, by simpa using hrest, hp, by simp, ha⟩
      · have h := Free.append_inj hf hpf (ended_cons.mpr hs) (ended_cons.mpr hx)
          (by simpa using heq)
        obtain ⟨-, hrest⟩ := List.cons.inj h.2
        exact ⟨tail ++ [b], after, by simpa using hrest, hp, by simpa using hbs, ha⟩
  · rintro (rfl | ⟨before, after, rfl, hp, hb, ha⟩)
    · exact ⟨[], s :: rest, by simp, hf, by simp, ended_cons.mpr hs⟩
    · refine ⟨first ++ s :: before, after, by simp, hp, ?_, ha⟩
      intro a h
      rcases before.eq_nil_or_concat with rfl | ⟨front, b, rfl⟩
      · have : s = a := by simpa using h
        exact this ▸ hs
      · have : b = a := by
          simpa [List.concat_eq_append, List.getLast?_append, List.getLast?_cons] using h
        exact this ▸ hb b (by simp)

theorem mem_pieces_iff {part text : List α} :
    part ∈ pieces isSep text ↔ IsPart isSep part text := by
  induction text using parts_induction isSep with
  | last text h => rw [pieces_of_free h, List.mem_singleton, isPart_of_free h]
  | first p s rest hp hs ih => rw [pieces_part rest hp hs, List.mem_cons, ih, isPart_append hp hs]

theorem mem_words_iff {word text : List α} :
    word ∈ words isSep text ↔ IsPart isSep word text ∧ word ≠ [] := by
  simp [words, mem_pieces_iff]

theorem mem_of_mem_words {a : α} {word text : List α} (hw : word ∈ words isSep text)
    (ha : a ∈ word) : a ∈ text := by
  obtain ⟨⟨before, after, rfl, -⟩, -⟩ := mem_words_iff.mp hw
  simp [ha]

/-- What is no separator is part of some word. -/
theorem exists_mem_words {a : α} {text : List α} (hm : a ∈ text) (ha : isSep a = false) :
    ∃ word ∈ words isSep text, a ∈ word := by
  induction text using parts_induction isSep with
  | last text hfree =>
    rw [words_of_free hfree (List.ne_nil_of_mem hm)]
    exact ⟨text, List.mem_singleton_self _, hm⟩
  | first part s rest hp hs ih =>
    rw [words_append_sep _ _ hs]
    rcases List.mem_append.mp hm with hpart | hrest
    · rw [words_of_free hp (List.ne_nil_of_mem hpart)]
      exact ⟨part, by simp, hpart⟩
    · rcases List.mem_cons.mp hrest with rfl | hrest
      · rw [ha] at hs
        cases hs
      · obtain ⟨word, hw, hm⟩ := ih hrest
        exact ⟨word, List.mem_append_right _ hw, hm⟩

/-! ### Order -/

/-- A word at the very start. -/
theorem Spaced.cons {w rest : List α} {ws : List (List α)} (hne : w ≠ []) (hw : Free isSep w)
    (hr : Ended isSep rest) (h : Spaced isSep ws rest) : Spaced isSep (w :: ws) (w ++ rest) :=
  @Spaced.word _ _ [] w rest ws (by simp) hne hw hr h

theorem Spaced.nil : Spaced isSep [] ([] : List α) := .gap (by simp)

theorem Spaced.cons_sep {ws : List (List α)} {text : List α} {s : α} (hs : isSep s = true)
    (h : Spaced isSep ws text) : Spaced isSep ws (s :: text) := by
  cases h with
  | gap hg => exact .gap (by simpa [hs] using hg)
  | @word gap w rest ws hg hne hw hr ho =>
    exact @Spaced.word _ _ (s :: gap) w rest ws (by simpa [hs] using hg) hne hw hr ho

theorem spaced_words (text : List α) : Spaced isSep (words isSep text) text := by
  induction text using parts_induction isSep with
  | last text h =>
    cases text with
    | nil => exact .nil
    | cons a text =>
      rw [words_of_free h (by simp)]
      simpa using Spaced.cons (by simp) h ended_nil .nil
  | first p s rest hp hs ih =>
    have hrest := ih.cons_sep hs
    cases p with
    | nil => rwa [List.nil_append, words_cons_sep _ hs]
    | cons a p =>
      rw [words_append_sep _ _ hs, words_of_free hp (by simp)]
      exact .cons (by simp) hp (ended_cons.mpr hs) hrest

/-! ### Lines -/

variable {β : Type} {p : α → Bool}

theorem dropLastIf_concat (text : List α) (a : α) :
    dropLastIf p (text ++ [a]) = if p a then text else text ++ [a] := by
  simp [dropLastIf]

theorem dropLastIf_eq_self {text : List α} (h : ∀ a ∈ text.getLast?, p a = false) :
    dropLastIf p text = text := by
  rcases text.eq_nil_or_concat with rfl | ⟨front, a, rfl⟩
  · rfl
  · rw [List.concat_eq_append, dropLastIf_concat, if_neg (by simp [h a (by simp)])]

theorem eq_dropLastIf_or (p : α → Bool) (text : List α) :
    text = dropLastIf p text ∨ ∃ a, p a = true ∧ text = dropLastIf p text ++ [a] := by
  rcases text.eq_nil_or_concat with rfl | ⟨front, a, rfl⟩
  · exact .inl rfl
  · rw [List.concat_eq_append, dropLastIf_concat]
    split
    · next ha => exact .inr ⟨a, ha, rfl⟩
    · exact .inl rfl

theorem mem_of_mem_dropLastIf {a : α} {text : List α} (h : a ∈ dropLastIf p text) : a ∈ text := by
  rcases eq_dropLastIf_or p text with heq | ⟨b, -, heq⟩
  · rwa [heq]
  · rw [heq]
    exact List.mem_append_left _ h

theorem dropLastIf_append (front : List α) {text : List α} (h : text ≠ []) :
    dropLastIf p (front ++ text) = front ++ dropLastIf p text := by
  obtain ⟨text, a, rfl⟩ := text.eq_nil_or_concat.resolve_left h
  rw [List.concat_eq_append, ← List.append_assoc, dropLastIf_concat, dropLastIf_concat]
  split <;> simp

theorem dropLastIf_map {q : β → Bool} {f : α → β} (h : ∀ a, q (f a) = p a) (text : List α) :
    dropLastIf q (text.map f) = (dropLastIf p text).map f := by
  rcases text.eq_nil_or_concat with rfl | ⟨front, a, rfl⟩
  · rfl
  · rw [List.concat_eq_append, List.map_append, List.map_singleton, dropLastIf_concat,
      dropLastIf_concat, h]
    split <;> simp

theorem pieces_ne_nil (text : List α) : pieces isSep text ≠ [] := by simp [pieces]

theorem lines_of_free {text : List α} (h : Free isSep text) :
    lines isSep text = if text.isEmpty then [] else [text] := by
  rw [lines, pieces_of_free h, ← List.nil_append [text], dropLastIf_concat, List.nil_append]

theorem lines_append_sep (a b : List α) {s : α} (hs : isSep s = true) :
    lines isSep (a ++ s :: b) = pieces isSep a ++ lines isSep b := by
  rw [lines, pieces_append_sep a b hs, dropLastIf_append _ (pieces_ne_nil b), lines]

end WeeklyAgenda.Pieces

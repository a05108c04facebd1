import Mathlib.Data.List.Forall2
import WeeklyAgenda.Line.Grammar
import WeeklyAgenda.Proofs.Matching
import WeeklyAgenda.Proofs.Parts

/-! The layout of a line, said without an algorithm: the text is the label and
then, behind a semicolon each, segments that hold the words of the clauses. The
grammar finds the layout of each text with a semicolon, to the end of the text,
and so does cutting the text at its semicolons. -/

namespace WeeklyAgenda.Line

open Pieces

/-- The text is the label, free of semicolons, and at least one segment, free of
semicolons too, behind a semicolon each; the clauses are the words of the
segments. -/
def Layout.Fits (l : Layout) (text : List Char) : Prop :=
  ∃ segments : List (List Char), segments ≠ [] ∧ text = l.label ++ segments.flatMap (';' :: ·) ∧
    Free isSemicolon l.label ∧ (∀ s ∈ segments, Free isSemicolon s) ∧
    List.Forall₂ (Spaced isSeparator) l.clauses segments

theorem isSemicolon_iff {c : Char} : isSemicolon c = true ↔ c = ';' := beq_iff_eq

theorem free_isSemicolon {text : List Char} : Free isSemicolon text ↔ ';' ∉ text := free_beq

theorem free_or_label (text : List Char) :
    Free isSemicolon text ∨
      ∃ label rest, text = label ++ ';' :: rest ∧ Free isSemicolon label := by
  rcases free_or_split isSemicolon text with h | ⟨label, s, rest, rfl, hl, hs⟩
  · exact .inl h
  · obtain rfl := isSemicolon_iff.mp hs
    exact .inr ⟨label, rest, rfl, hl⟩

/-- What ends a word within a line. -/
def isWordEnd (c : Char) : Bool := isSeparator c || isSemicolon c

theorem free_isWordEnd {text : List Char} :
    Free isWordEnd text ↔ Free isSeparator text ∧ Free isSemicolon text := by
  simp only [Free, isWordEnd, Bool.or_eq_false_iff]
  exact ⟨fun h => ⟨fun c hc => (h c hc).1, fun c hc => (h c hc).2⟩,
    fun h c hc => ⟨h.1 c hc, h.2 c hc⟩⟩

/-! ### Patterns for one character -/

namespace Pattern

/-- The pattern takes one character if that is accepted and fails otherwise. -/
structure Picks (p : Pattern Char) (accepts : Char → Bool) : Prop where
  taken : ∀ {c : Char} (rest : List Char), accepts c = true → p.Matches (c :: rest) (some (c, rest))
  refused : ∀ {rest : List Char}, Ended (fun c => !accepts c) rest → p.Matches rest none

theorem picks_char (accepts : Char → Bool) : (char accepts).Picks accepts where
  taken _ h := .char h
  refused h := by
    rcases h.eq_nil_or with rfl | ⟨c, rest, rfl, hc⟩
    · exact .charEnd
    · exact .charOther (by simpa using hc)

theorem Picks.choice {p q : Pattern Char} {f g : Char → Bool} (hp : p.Picks f) (hq : q.Picks g) :
    (p.choice q).Picks fun c => f c || g c where
  taken {c} rest h := by
    cases hf : f c with
    | true => exact .choice (hp.taken rest hf)
    | false =>
      have hg : g c = true := by simpa [hf] using h
      exact .choiceOther (hp.refused (ended_cons.mpr (by rw [hf]; rfl))) (hq.taken rest hg)
  refused {rest} h := by
    rcases h.eq_nil_or with rfl | ⟨c, rest, rfl, hc⟩
    · exact .choiceOther (hp.refused ended_nil) (hq.refused ended_nil)
    · simp only [Bool.not_or, Bool.and_eq_true] at hc
      exact .choiceOther (hp.refused (ended_cons.mpr hc.1)) (hq.refused (ended_cons.mpr hc.2))

/-- Any character where another pattern does not match. -/
theorem Picks.absent {p : Pattern Char} {f : Char → Bool} (hp : p.Picks f) :
    (before (absent p) any).Picks fun c => !f c where
  taken {c} rest h :=
    .map (.seq (.absent (hp.refused (ended_cons.mpr h))) (.char rfl))
  refused {rest} h := by
    rcases h.eq_nil_or with rfl | ⟨c, rest, rfl, hc⟩
    · exact .mapFail (.seqSecond (.absent (hp.refused ended_nil)) .charEnd)
    · exact .mapFail (.seqFirst (.absentFound (hp.taken rest (by simpa using hc))))

/-- Repetition takes all accepted characters up to the first other one. -/
theorem Picks.star {p : Pattern Char} {f : Char → Bool} (hp : p.Picks f) {run rest : List Char}
    (hrun : ∀ c ∈ run, f c = true) (hrest : Ended (fun c => !f c) rest) :
    (star p).Matches (run ++ rest) (some (run, rest)) := by
  induction run with
  | nil => exact .starEnd (hp.refused hrest)
  | cons c run ih =>
    exact .star (hp.taken _ (hrun c (by simp))) (ih fun x hx => hrun x (by simp [hx]))

theorem Picks.plus {p : Pattern Char} {f : Char → Bool} (hp : p.Picks f) {run rest : List Char}
    (hne : run ≠ []) (hrun : ∀ c ∈ run, f c = true) (hrest : Ended (fun c => !f c) rest) :
    (plus p).Matches (run ++ rest) (some (run, rest)) := by
  cases run with
  | nil => exact absurd rfl hne
  | cons c run =>
    exact .map (.seq (hp.taken _ (hrun c (by simp)))
      (hp.star (fun x hx => hrun x (by simp [hx])) hrest))

end Pattern

namespace Grammar

open Pattern

theorem picks_semicolon : semicolon.Picks isSemicolon := picks_char _

theorem picks_separator : separator.Picks isSeparator := (picks_char _).choice (picks_char _)

theorem picks_wordEnd : (choice separator semicolon).Picks isWordEnd :=
  picks_separator.choice picks_semicolon

/-! ### Clauses -/

/-- What can follow a word: a separator or the end of the clause. -/
theorem ended_word {rest tail : List Char} (hr : Ended isSeparator rest)
    (ht : Ended isSemicolon tail) : Ended (fun c => !!isWordEnd c) (rest ++ tail) := by
  rcases hr.eq_nil_or with rfl | ⟨s, rest, rfl, hs⟩
  · rcases ht.eq_nil_or with rfl | ⟨s, tail, rfl, hs⟩
    · exact ended_nil
    · exact ended_cons.mpr (by simp [isWordEnd, hs])
  · exact ended_cons.mpr (by simp [isWordEnd, hs])

theorem not_isSeparator_of_isSemicolon {c : Char} (h : isSemicolon c = true) :
    isSeparator c = false := by
  rw [isSemicolon_iff.mp h]
  decide

theorem ended_gap {tail : List Char} (ht : Ended isSemicolon tail) :
    Ended (fun c => !isSeparator c) tail := by
  rcases ht.eq_nil_or with rfl | ⟨s, tail, rfl, hs⟩
  · exact ended_nil
  · exact ended_cons.mpr (by simp [not_isSeparator_of_isSemicolon hs])

theorem matches_word {w rest : List Char} (hne : w ≠ []) (hw : Free isWordEnd w)
    (hrest : Ended (fun c => !!isWordEnd c) rest) :
    word.Matches (w ++ rest) (some (w, rest)) :=
  picks_wordEnd.absent.plus hne (fun c hc => by simp [hw c hc]) hrest

theorem matches_word_none {tail : List Char} (ht : Ended isSemicolon tail) :
    word.Matches tail none :=
  .mapFail (.seqFirst (picks_wordEnd.absent.refused (ended_word ended_nil ht)))

/-- The words of a segment are taken one after the other, each with the gap
behind it, once the gap in front of the first is gone. -/
theorem matches_words {ws : List Word} {segment tail : List Char}
    (h : Spaced isSeparator ws segment) (hfree : Free isSemicolon segment)
    (ht : Ended isSemicolon tail) :
    ∃ gap rest, segment = gap ++ rest ∧ (∀ c ∈ gap, isSeparator c = true) ∧
      Ended (fun c => !isSeparator c) (rest ++ tail) ∧
      (star (followedBy word (star separator))).Matches (rest ++ tail) (some (ws, tail)) := by
  induction h with
  | @gap gap hg =>
    exact ⟨gap, [], (List.append_nil gap).symm, hg, ended_gap ht,
      .starEnd (.mapFail (.seqFirst (matches_word_none ht)))⟩
  | @word gap w rest ws hg hne hw hr _ ih =>
    obtain ⟨gap', rest', rfl, hg', he', hm'⟩ := ih fun c hc => hfree c (by simp [hc])
    refine ⟨gap, w ++ (gap' ++ rest'), List.append_assoc .., hg, ?_, ?_⟩
    · cases w with
      | nil => exact absurd rfl hne
      | cons c w => exact ended_cons.mpr (by simp [(free_cons.mp hw).1])
    · have hwfree : Free isWordEnd w :=
        free_isWordEnd.mpr ⟨hw, fun c hc => hfree c (by simp [hc])⟩
      have hword := matches_word hne hwfree (ended_word hr ht)
      have hgap := picks_separator.star hg' he'
      rw [List.append_assoc]
      rw [List.append_assoc] at hword ⊢
      exact .star (.map (.seq hword hgap)) hm'

theorem matches_clause {ws : List Word} {segment tail : List Char}
    (h : Spaced isSeparator ws segment) (hfree : Free isSemicolon segment)
    (ht : Ended isSemicolon tail) : clause.Matches (segment ++ tail) (some (ws, tail)) := by
  obtain ⟨gap, rest, rfl, hg, he, hm⟩ := matches_words h hfree ht
  rw [List.append_assoc]
  exact .map (.seq (picks_separator.star hg he) hm)

/-! ### Lines -/

theorem ended_segments (segments : List (List Char)) :
    Ended isSemicolon (segments.flatMap (';' :: ·)) := by
  cases segments with
  | nil => exact ended_nil
  | cons s segments => exact ended_cons.mpr rfl

theorem matches_clauses {clauses : List (List Word)} {segments : List (List Char)}
    (h : List.Forall₂ (Spaced isSeparator) clauses segments)
    (hfree : ∀ s ∈ segments, Free isSemicolon s) :
    (star (before semicolon clause)).Matches (segments.flatMap (';' :: ·))
      (some (clauses, [])) := by
  induction h with
  | nil => exact .starEnd (.mapFail (.seqFirst (picks_semicolon.refused ended_nil)))
  | @cons ws segment clauses segments hw _ ih =>
    have hclause := matches_clause hw (hfree segment (by simp)) (ended_segments segments)
    exact .star (.map (.seq (picks_semicolon.taken _ rfl) hclause))
      (ih fun s hs => hfree s (by simp [hs]))

/-- The grammar reads a text as any layout that fits it, and to its end. -/
theorem matches_line {l : Layout} {text : List Char} (h : l.Fits text) :
    line.Matches text (some (l, [])) := by
  obtain ⟨segments, hne, rfl, hl, hfree, hw⟩ := h
  have hlabel : label.Matches (l.label ++ segments.flatMap (';' :: ·))
      (some (l.label, segments.flatMap (';' :: ·))) :=
    picks_semicolon.absent.star (fun c hc => by simp [hl c hc])
      (by simpa using ended_segments segments)
  cases segments with
  | nil => exact absurd rfl hne
  | cons segment segments =>
    cases hc : l.clauses with
    | nil => simp [hc] at hw
    | cons ws clauses =>
      rw [hc, List.forall₂_cons] at hw
      have hclause := matches_clause hw.1 (hfree segment (by simp)) (ended_segments segments)
      have hothers := matches_clauses hw.2 fun s hs => hfree s (by simp [hs])
      have hlayout : l = ⟨l.label, ws :: clauses⟩ := by rw [← hc]
      rw [hlayout]
      exact .map (.seq (.map (.seq hlabel
        (.map (.seq (.map (.seq (picks_semicolon.taken _ rfl) hclause)) hothers)))) .finish)

theorem matches_line_none {text : List Char} (h : Free isSemicolon text) :
    line.Matches text none := by
  have hlabel : label.Matches (text ++ []) (some (text, [])) :=
    picks_semicolon.absent.star (fun c hc => by simp [h c hc]) ended_nil
  rw [List.append_nil] at hlabel
  exact .mapFail (.seqFirst (.mapFail (.seqSecond hlabel
    (.mapFail (.seqFirst (.mapFail (.seqFirst (picks_semicolon.refused ended_nil))))))))

theorem productive_line : line.Productive := by
  have hsep : separator.Takes := (takes_char _).choice (takes_char _)
  have hword : word.Takes := (Takes.seq (.inl ((Takes.seq (.inr (takes_char _))).map _))).map _
  have hlabel : (before (absent semicolon) any).Takes := (Takes.seq (.inr (takes_char _))).map _
  have hclause : (before semicolon clause).Takes := (Takes.seq (.inl (takes_char _))).map _
  have hspaced : (followedBy word (star separator)).Takes := (Takes.seq (.inl hword)).map _
  have hchar : (before (absent (choice separator semicolon)) any).Takes :=
    (Takes.seq (.inr (takes_char _))).map _
  simp only [line, layout, label, clause, word, plus, before, followedBy, separator, semicolon,
    one, any, Productive, true_and, and_true] at *
  exact ⟨hlabel, ⟨hsep, ⟨hchar, hsep⟩, hspaced⟩, ⟨hsep, ⟨hchar, hsep⟩, hspaced⟩, hclause⟩

/-! ### Cutting at the semicolons -/

theorem flatMap_pieces (text : List Char) :
    (pieces isSemicolon text).flatMap (';' :: ·) = ';' :: text := by
  induction text using parts_induction isSemicolon with
  | last text h => simp [pieces_of_free h]
  | first part s rest hp hs ih =>
    rw [pieces_part rest hp hs, List.flatMap_cons, ih, isSemicolon_iff.mp hs, List.cons_append]

theorem fits_segments {label : List Char} {segments : List (List Char)}
    (hl : Free isSemicolon label) (hne : segments ≠ [])
    (hfree : ∀ s ∈ segments, Free isSemicolon s) :
    Layout.Fits ⟨label, segments.map (words isSeparator)⟩
      (label ++ segments.flatMap (';' :: ·)) := by
  refine ⟨segments, hne, rfl, hl, hfree, ?_⟩
  rw [List.forall₂_map_left_iff, List.forall₂_same]
  exact fun s _ => spaced_words s

theorem free_of_mem_pieces {segment text : List Char} (h : segment ∈ pieces isSemicolon text) :
    Free isSemicolon segment := by
  obtain ⟨-, -, -, hfree, -⟩ := mem_pieces_iff.mp h
  exact hfree

theorem fits_pieces {label : List Char} (hl : Free isSemicolon label) (rest : List Char) :
    Layout.Fits ⟨label, (pieces isSemicolon rest).map (words isSeparator)⟩
      (label ++ ';' :: rest) := by
  rw [← flatMap_pieces]
  exact fits_segments hl (by simp [pieces]) fun s hs => free_of_mem_pieces hs

theorem mem_of_fits {l : Layout} {text : List Char} (h : l.Fits text) : ';' ∈ text := by
  obtain ⟨segments, hne, rfl, -⟩ := h
  cases segments with
  | nil => exact absurd rfl hne
  | cons s segments => simp

theorem exists_fits_iff {text : List Char} : (∃ l : Layout, l.Fits text) ↔ ';' ∈ text := by
  refine ⟨fun ⟨l, hl⟩ => mem_of_fits hl, fun h => ?_⟩
  rcases free_or_label text with hfree | ⟨label, rest, rfl, hl⟩
  · exact absurd h (free_isSemicolon.mp hfree)
  · exact ⟨_, fits_pieces hl rest⟩

/-- A run of the grammar succeeds with the layouts that fit, and at the end. -/
theorem run_line_iff {text rest : List Char} {l : Layout} :
    line.run text = some (l, rest) ↔ rest = [] ∧ l.Fits text := by
  constructor
  · intro h
    by_cases hmem : ';' ∈ text
    · obtain ⟨l', hl'⟩ := exists_fits_iff.mpr hmem
      rw [(matches_line hl').run_eq productive_line] at h
      cases h
      exact ⟨rfl, hl'⟩
    · rw [(matches_line_none (free_isSemicolon.mpr hmem)).run_eq productive_line] at h
      cases h
  · rintro ⟨rfl, hl⟩
    exact (matches_line hl).run_eq productive_line

theorem run_line_isSome {text : List Char} : (line.run text).isSome ↔ ';' ∈ text := by
  rw [← exists_fits_iff, Option.isSome_iff_exists]
  constructor
  · rintro ⟨⟨l, rest⟩, h⟩
    exact ⟨l, (run_line_iff.mp h).2⟩
  · rintro ⟨l, hl⟩
    exact ⟨(l, []), run_line_iff.mpr ⟨rfl, hl⟩⟩

theorem read?_of_fits {l : Layout} {text : List Char} (h : l.Fits text) :
    read? text = some l := by
  rw [read?, run_line_iff.mpr ⟨rfl, h⟩]
  rfl

theorem read?_of_free {text : List Char} (h : Free isSemicolon text) : read? text = none := by
  rw [read?, (matches_line_none h).run_eq productive_line]
  rfl

end Grammar

end WeeklyAgenda.Line

import Mathlib
import WeeklyAgenda.Proofs.Parts
import WeeklyAgenda.Text.Lowercase

/-! What lower case leaves alone. The signs are the characters of ASCII that are
no letters: each is kept, and no other character becomes one, however its case
is mapped. So a text and its lower case are cut into parts alike at any signs.
At a separator that does not count for case the lower case of a text is that of
its two sides, the final sigma included. -/

namespace WeeklyAgenda.Lowercase

open Pieces

def isSign (c : Char) : Bool := c.toNat < 0x80 && !c.isAlpha

theorem isSign_of_le {c : Char} (h : 0x80 ≤ c.toNat) : isSign c = false := by
  simp [isSign]
  omega

theorem isSign_of_beq {x : Char} (hx : isSign x = true) :
    ∀ c, (c == x) = true → isSign c = true := by
  intro c hc
  rwa [beq_iff_eq.mp hc]

/-! ### One character -/

theorem ascii_toLower : ∀ n < 0x80,
    if isSign (Char.ofNat n) then (Char.ofNat n).toLower = Char.ofNat n
    else isSign (Char.ofNat n).toLower = false := by
  decide +kernel

theorem lt_of_isSign {c : Char} (h : isSign c = true) : c.toNat < 0x80 := by
  simp only [isSign, Bool.and_eq_true, decide_eq_true_eq] at h
  exact h.1

theorem toLower_of_isSign {c : Char} (h : isSign c = true) : c.toLower = c := by
  have := ascii_toLower c.toNat (lt_of_isSign h)
  rwa [Char.ofNat_toNat, if_pos h] at this

theorem isSign_toLower {c : Char} (hlt : c.toNat < 0x80) (h : isSign c = false) :
    isSign c.toLower = false := by
  have := ascii_toLower c.toNat hlt
  rwa [Char.ofNat_toNat, if_neg (by simp [h])] at this

/-- Each run has its lower-case letters beyond ASCII, but for the Kelvin sign,
and within the code points. -/
theorem runs_bounds : ∀ r ∈ LowercaseMapping.runs,
    (0x80 ≤ r.target ∨ r.target = 0x6B ∧ r.first = r.last) ∧
      (r.target + (r.last - r.first) < 0xD800 ∨
        0xE000 ≤ r.target ∧ r.target + (r.last - r.first) < 0x110000) := by
  decide +kernel

/-- The Kelvin sign is the one character beyond ASCII with a letter of ASCII for its
lower case. -/
theorem lower_cases {c : Char} (h : 0x80 ≤ c.toNat) :
    0x80 ≤ (LowercaseMapping.lower c).toNat ∨ LowercaseMapping.lower c = 'k' := by
  unfold LowercaseMapping.lower
  split
  · next r hr =>
    have hc := List.find?_some hr
    obtain ⟨htarget, hvalid⟩ := runs_bounds r (List.mem_of_find?_eq_some hr)
    simp only [LowercaseMapping.Run.covers, Bool.and_eq_true, decide_eq_true_eq] at hc
    have himage : r.image c.toNat ≤ r.target + (r.last - r.first) ∧
        r.target ≤ r.image c.toNat := by
      simp only [LowercaseMapping.Run.image]
      omega
    have hn : (Char.ofNat (r.image c.toNat)).toNat = r.image c.toNat := by
      rw [Char.toNat_ofNat, if_pos (by omega)]
    rcases htarget with ht | ⟨ht, hone⟩
    · exact .inl (by omega)
    · have hk : r.image c.toNat = 0x6B := by omega
      rw [hk]
      exact .inr rfl
  · exact .inl h

theorem isSign_lower {c : Char} (h : 0x80 ≤ c.toNat) :
    isSign (LowercaseMapping.lower c) = false := by
  rcases lower_cases h with hlower | hlower
  · exact isSign_of_le hlower
  · rw [hlower]
    decide

theorem letters_of_isSign {c : Char} (h : isSign c = true) : letters c = [c] := by
  rw [letters, if_pos (lt_of_isSign h), toLower_of_isSign h]

theorem letters_ne_nil (c : Char) : letters c ≠ [] := by
  unfold letters
  split
  · simp
  · split <;> simp

theorem free_letters {c : Char} (h : isSign c = false) : Free isSign (letters c) := by
  unfold letters
  split
  · next hlt => simpa [Free] using isSign_toLower hlt h
  · next hge =>
    split
    · decide
    · simpa [Free] using isSign_lower (by omega)

/-! ### A text beside its lower case -/

/-- The signs of two texts are the same and between the same signs stands
nothing or something in both. -/
inductive Folds : List Char → List Char → Prop
  | nil : Folds [] []
  | sign {c : Char} {s t : List Char} (sign : isSign c = true) (rest : Folds s t) :
      Folds (c :: s) (c :: t)
  | letter {c : Char} {image s t : List Char} (letter : isSign c = false) (nonempty : image ≠ [])
      (free : Free isSign image) (rest : Folds s t) : Folds (c :: s) (image ++ t)

theorem folds_lowerFrom (before text : List Char) : Folds text (lowerFrom before text) := by
  induction text generalizing before with
  | nil => exact .nil
  | cons c text ih =>
    rw [lowerFrom]
    by_cases hsigma : c = 'Σ'
    · subst hsigma
      rw [if_pos rfl]
      refine .letter (by decide) ?_ ?_ (ih _)
      · split <;> simp
      · split <;> decide
    · simp only [if_neg hsigma]
      cases hc : isSign c with
      | true =>
        rw [letters_of_isSign hc]
        exact .sign hc (ih _)
      | false => exact .letter hc (letters_ne_nil c) (free_letters hc) (ih _)

theorem folds_lower (text : List Char) : Folds text (lower text) := folds_lowerFrom [] text

namespace Folds

variable {s t : List Char}

theorem eq_nil_iff (h : Folds s t) : s = [] ↔ t = [] := by
  cases h with
  | nil => simp
  | sign => simp
  | letter _ hne => simp [hne]

theorem mem_iff (h : Folds s t) {c : Char} (hc : isSign c = true) : c ∈ s ↔ c ∈ t := by
  induction h with
  | nil => rfl
  | sign _ _ ih => simp [ih]
  | @letter x image s t hx _ hfree _ ih =>
    have hne : c ≠ x := by
      rintro rfl
      simp [hc] at hx
    have hni : c ∉ image := fun hm => by simp [hfree c hm] at hc
    simp [hne, hni, ih]

theorem eq_of_left (h : Folds s t) (hs : ∀ c ∈ s, isSign c = true) : s = t := by
  induction h with
  | nil => rfl
  | sign _ _ ih => rw [ih fun c hc => hs c (by simp [hc])]
  | @letter x image s t hx _ _ _ _ =>
    rw [hs x (by simp)] at hx
    cases hx

theorem eq_of_right (h : Folds s t) (ht : ∀ c ∈ t, isSign c = true) : s = t := by
  induction h with
  | nil => rfl
  | sign _ _ ih => rw [ih fun c hc => ht c (by simp [hc])]
  | letter _ hne hfree _ _ =>
    obtain ⟨x, hx⟩ := List.exists_mem_of_ne_nil _ hne
    have hsign := ht x (by simp [hx])
    rw [hfree x hx] at hsign
    cases hsign

theorem forall₂_modifyHead {ps qs : List (List Char)} {f g : List Char → List Char}
    (h : List.Forall₂ Folds ps qs) (hfg : ∀ {p q}, Folds p q → Folds (f p) (g q)) :
    List.Forall₂ Folds (ps.modifyHead f) (qs.modifyHead g) := by
  cases h with
  | nil => exact .nil
  | cons hp hps => exact .cons (hfg hp) hps

/-- Both texts are cut alike at separators that are signs. -/
theorem pieces {isSep : Char → Bool} (hsep : ∀ c, isSep c = true → isSign c = true)
    (h : Folds s t) : List.Forall₂ Folds (pieces isSep s) (pieces isSep t) := by
  have hfalse : ∀ {c}, isSign c = false → isSep c = false := fun {c} hc => by
    cases hcs : isSep c with
    | true => rw [hsep c hcs] at hc; cases hc
    | false => rfl
  induction h with
  | nil => exact .cons .nil .nil
  | @sign c s t hc _ ih =>
    cases hcs : isSep c with
    | true =>
      rw [pieces_cons_sep s hcs, pieces_cons_sep t hcs]
      exact .cons .nil ih
    | false =>
      rw [pieces_cons_free s hcs, pieces_cons_free t hcs]
      exact forall₂_modifyHead ih fun hp => .sign hc hp
  | @letter c image s t hx hne hfree _ ih =>
    rw [pieces_cons_free s (hfalse hx), pieces_free_append fun x hx => hfalse (hfree x hx)]
    exact forall₂_modifyHead ih fun hp => .letter hx hne hfree hp

/-- The words correspond as the parts do. -/
theorem words {isSep : Char → Bool} (hsep : ∀ c, isSep c = true → isSign c = true)
    (h : Folds s t) : List.Forall₂ Folds (words isSep s) (words isSep t) :=
  forall₂_words eq_nil_iff (h.pieces hsep)

end Folds

/-! ### Case within ASCII -/

theorem toLower_of_le {c : Char} (h : 0x80 ≤ c.toNat) : c.toLower = c := by
  have hle : ¬ c.val ≤ 'Z'.val := fun hle => by
    have : c.toNat ≤ 90 := UInt32.le_iff_toNat_le.mp hle
    omega
  exact dif_neg fun hupper => hle hupper.2

theorem toUpper_of_le {c : Char} (h : 0x80 ≤ c.toNat) : c.toUpper = c := by
  have hle : ¬ c.val ≤ 'z'.val := fun hle => by
    have : c.toNat ≤ 122 := UInt32.le_iff_toNat_le.mp hle
    omega
  exact dif_neg fun hlower => hle hlower.2

theorem toLower_toLower (c : Char) : c.toLower.toLower = c.toLower := by
  have hascii : ∀ n < 0x80, (Char.ofNat n).toLower.toLower = (Char.ofNat n).toLower := by
    decide +kernel
  by_cases h : c.toNat < 0x80
  · have := hascii c.toNat h
    rwa [Char.ofNat_toNat] at this
  · rw [toLower_of_le (c := c) (by omega), toLower_of_le (c := c) (by omega)]

theorem toLower_toUpper (c : Char) : c.toUpper.toLower = c.toLower := by
  have hascii : ∀ n < 0x80, (Char.ofNat n).toUpper.toLower = (Char.ofNat n).toLower := by
    decide +kernel
  by_cases h : c.toNat < 0x80
  · have := hascii c.toNat h
    rwa [Char.ofNat_toNat] at this
  · rw [toUpper_of_le (by omega)]

theorem isSign_map_toLower (c : Char) (h : isSign c = false) : isSign c.toLower = false := by
  by_cases hlt : c.toNat < 0x80
  · exact isSign_toLower hlt h
  · rwa [toLower_of_le (by omega)]

/-- Signs are left alone by the case of letters, and no letter becomes one. -/
theorem isSep_toLower {isSep : Char → Bool} (hsep : ∀ c, isSep c = true → isSign c = true)
    (c : Char) : isSep c.toLower = isSep c := by
  cases hc : isSign c with
  | true => rw [toLower_of_isSign hc]
  | false =>
    have hfalse : ∀ {x}, isSign x = false → isSep x = false := fun {x} hx => by
      cases hs : isSep x with
      | true => rw [hsep x hs] at hx; cases hx
      | false => rfl
    rw [hfalse hc, hfalse (isSign_map_toLower c hc)]

theorem folds_map_toLower (text : List Char) : Folds text (text.map Char.toLower) := by
  induction text with
  | nil => exact .nil
  | cons c text ih =>
    rw [List.map_cons]
    cases hc : isSign c with
    | true =>
      rw [toLower_of_isSign hc]
      exact .sign hc ih
    | false =>
      exact .letter hc (List.cons_ne_nil _ _) (free_cons.mpr ⟨isSign_map_toLower c hc, free_nil⟩)
        ih

/-- Within ASCII, lower case is that of each letter on its own. -/
theorem lower_of_ascii {text : List Char} (h : ∀ c ∈ text, c.toNat < 0x80) :
    lower text = text.map Char.toLower := by
  have hfrom : ∀ before, lowerFrom before text = text.map Char.toLower := by
    induction text with
    | nil => exact fun _ => rfl
    | cons c text ih =>
      intro before
      have hlt : c.toNat < 0x80 := h c (by simp)
      have hsigma : c ≠ 'Σ' := by
        rintro rfl
        exact absurd hlt (by decide)
      rw [lowerFrom, if_neg hsigma, letters, if_pos hlt, ih fun x hx => h x (by simp [hx])]
      rfl
  exact hfrom []

/-- A character beyond ASCII, or the letter that the Kelvin sign has for its lower
case. -/
def IsForeign (c : Char) : Prop := 0x80 ≤ c.toNat ∨ c = 'k'

instance (c : Char) : Decidable (IsForeign c) :=
  inferInstanceAs (Decidable (0x80 ≤ c.toNat ∨ c = 'k'))

theorem exists_foreign_letters {c : Char} (h : 0x80 ≤ c.toNat) :
    ∃ x ∈ letters c, IsForeign x := by
  unfold letters
  rw [if_neg (by omega)]
  split
  · exact ⟨'\u0307', by simp, .inl (by decide)⟩
  · exact ⟨_, List.mem_singleton_self _, lower_cases h⟩

/-- A character beyond ASCII leaves its mark in the lower case. -/
theorem exists_foreign_lower {text : List Char} {c : Char} (hc : c ∈ text) (h : 0x80 ≤ c.toNat) :
    ∃ x ∈ lower text, IsForeign x := by
  have hfrom : ∀ before, ∃ x ∈ lowerFrom before text, IsForeign x := by
    induction text with
    | nil => cases hc
    | cons a text ih =>
      intro before
      rw [lowerFrom]
      rcases List.mem_cons.mp hc with rfl | hc
      · have hhere : ∃ x ∈ (if c = 'Σ' then if isFinal before text then ['ς'] else ['σ']
            else letters c), IsForeign x := by
          split
          · split
            · exact ⟨'ς', by simp, .inl (by decide)⟩
            · exact ⟨'σ', by simp, .inl (by decide)⟩
          · exact exists_foreign_letters h
        obtain ⟨x, hx, hforeign⟩ := hhere
        exact ⟨x, List.mem_append_left _ hx, hforeign⟩
      · obtain ⟨x, hx, hforeign⟩ := ih hc (a :: before)
        exact ⟨x, List.mem_append_right _ hx, hforeign⟩
  exact hfrom []

/-! ### At a break -/

/-- A sign that ends the search for a letter in either direction. -/
structure Breaks (s : Char) : Prop where
  sign : isSign s = true
  not_ignorable : CaseIgnorable.isCaseIgnorable s = false
  not_cased : Cased.isCased s = false

theorem meetsCased_append {s : Char} (hs : Breaks s) (a b : List Char) :
    meetsCased (a ++ s :: b) = meetsCased a := by
  unfold meetsCased
  induction a with
  | nil => simp [hs.not_ignorable, hs.not_cased]
  | cons c a ih =>
    cases hc : CaseIgnorable.isCaseIgnorable c with
    | true => simpa [hc] using ih
    | false => simp [hc]

theorem isFinal_append_after {s : Char} (hs : Breaks s) (before a b : List Char) :
    isFinal before (a ++ s :: b) = isFinal before a := by
  rw [isFinal, meetsCased_append hs, isFinal]

theorem isFinal_append_before {s : Char} (hs : Breaks s) (near far after : List Char) :
    isFinal (near ++ s :: far) after = isFinal near after := by
  rw [isFinal, meetsCased_append hs, isFinal]

/-- What lies behind a break in the text after does not matter. -/
theorem lowerFrom_append {s : Char} (hs : Breaks s) (before a b : List Char) :
    lowerFrom before (a ++ s :: b) =
      lowerFrom before a ++ lowerFrom (a.reverse ++ before) (s :: b) := by
  induction a generalizing before with
  | nil => rfl
  | cons c a ih =>
    rw [List.cons_append, lowerFrom, lowerFrom, ih, isFinal_append_after hs, List.append_assoc,
      List.reverse_cons, List.append_assoc, List.singleton_append]

/-- What lies behind a break in the text before does not matter. -/
theorem lowerFrom_before {s : Char} (hs : Breaks s) (near far text : List Char) :
    lowerFrom (near ++ s :: far) text = lowerFrom near text := by
  induction text generalizing near with
  | nil => rfl
  | cons c text ih =>
    rw [lowerFrom, lowerFrom, isFinal_append_before hs, ← List.cons_append, ih]

theorem lower_append {s : Char} (hs : Breaks s) (a b : List Char) :
    lower (a ++ s :: b) = lower a ++ s :: lower b := by
  have hsigma : s ≠ 'Σ' := by
    rintro rfl
    have := hs.sign
    simp [show isSign 'Σ' = false by decide] at this
  have hb : lowerFrom (s :: (a.reverse ++ [])) b = lowerFrom [] b := lowerFrom_before hs [] _ b
  rw [lower, lowerFrom_append hs, lowerFrom, if_neg hsigma, letters_of_isSign hs.sign, hb,
    List.singleton_append]
  rfl

theorem free_lower {isSep : Char → Bool} (hsep : ∀ c, isSep c = true → isSign c = true)
    {text : List Char} (h : Free isSep text) : Free isSep (lower text) := by
  intro c hc
  cases hcs : isSep c with
  | false => rfl
  | true =>
    have := h c (((folds_lower text).mem_iff (hsep c hcs)).mpr hc)
    rw [hcs] at this
    cases this

/-- Lower case can be taken before or after cutting at breaks. -/
theorem pieces_lower {isSep : Char → Bool} (hsep : ∀ c, isSep c = true → Breaks c)
    (text : List Char) : pieces isSep (lower text) = (pieces isSep text).map lower := by
  have hsign : ∀ c, isSep c = true → isSign c = true := fun c hc => (hsep c hc).sign
  induction text using parts_induction isSep with
  | last text h =>
    rw [pieces_of_free h, pieces_of_free (free_lower hsign h)]
    rfl
  | first part s rest hp hs ih =>
    rw [pieces_part rest hp hs, lower_append (hsep s hs), pieces_part _ (free_lower hsign hp) hs,
      ih]
    rfl

theorem words_lower {isSep : Char → Bool} (hsep : ∀ c, isSep c = true → Breaks c)
    (text : List Char) : words isSep (lower text) = (words isSep text).map lower := by
  rw [words, pieces_lower hsep, List.filter_map]
  congr 1
  apply List.filter_congr
  intro p _
  cases p with
  | nil => rfl
  | cons c p =>
    have hne : lower (c :: p) ≠ [] := fun h => by
      have := (folds_lower (c :: p)).eq_nil_iff.mpr h
      cases this
    simp [hne]

end WeeklyAgenda.Lowercase

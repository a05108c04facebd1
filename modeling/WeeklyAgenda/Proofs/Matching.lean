import WeeklyAgenda.Line.Pattern

/-! What a pattern means, as rules for when it matches and when it fails. The
rules repeat a pattern without a bound; a run needs one, which is never met when
each repetition takes a character. Then a run has the one outcome that the rules
give, so that a derivation tells what a run comes to. -/

namespace WeeklyAgenda.Line.Pattern

/-- The outcome of a pattern at the start of a text: the value and the text
behind the match, or nothing where the pattern fails. -/
inductive Matches : {α : Type} → Pattern α → List Char → Option (α × List Char) → Prop
  | char {accepts : Char → Bool} {c : Char} {rest : List Char} (accepted : accepts c = true) :
      Matches (.char accepts) (c :: rest) (some (c, rest))
  | charOther {accepts : Char → Bool} {c : Char} {rest : List Char}
      (refused : accepts c = false) : Matches (.char accepts) (c :: rest) none
  | charEnd {accepts : Char → Bool} : Matches (.char accepts) [] none
  | finish : Matches .finish [] (some ((), []))
  | finishMore {c : Char} {rest : List Char} : Matches .finish (c :: rest) none
  | seq {α β : Type} {p : Pattern α} {q : Pattern β} {text mid rest : List Char} {a : α} {b : β}
      (first : Matches p text (some (a, mid))) (second : Matches q mid (some (b, rest))) :
      Matches (.seq p q) text (some ((a, b), rest))
  | seqFirst {α β : Type} {p : Pattern α} {q : Pattern β} {text : List Char}
      (first : Matches p text none) : Matches (.seq p q) text none
  | seqSecond {α β : Type} {p : Pattern α} {q : Pattern β} {text mid : List Char} {a : α}
      (first : Matches p text (some (a, mid))) (second : Matches q mid none) :
      Matches (.seq p q) text none
  | choice {α : Type} {p q : Pattern α} {text : List Char} {result : α × List Char}
      (first : Matches p text (some result)) : Matches (.choice p q) text (some result)
  | choiceOther {α : Type} {p q : Pattern α} {text : List Char}
      {outcome : Option (α × List Char)} (first : Matches p text none)
      (second : Matches q text outcome) : Matches (.choice p q) text outcome
  | star {α : Type} {p : Pattern α} {text mid rest : List Char} {a : α} {as : List α}
      (first : Matches p text (some (a, mid))) (others : Matches (.star p) mid (some (as, rest))) :
      Matches (.star p) text (some (a :: as, rest))
  | starEnd {α : Type} {p : Pattern α} {text : List Char} (first : Matches p text none) :
      Matches (.star p) text (some ([], text))
  | absent {α : Type} {p : Pattern α} {text : List Char} (first : Matches p text none) :
      Matches (.absent p) text (some ((), text))
  | absentFound {α : Type} {p : Pattern α} {text : List Char} {result : α × List Char}
      (first : Matches p text (some result)) : Matches (.absent p) text none
  | map {α β : Type} {f : α → β} {p : Pattern α} {text rest : List Char} {a : α}
      (first : Matches p text (some (a, rest))) : Matches (.map f p) text (some (f a, rest))
  | mapFail {α β : Type} {f : α → β} {p : Pattern α} {text : List Char}
      (first : Matches p text none) : Matches (.map f p) text none

variable {α β : Type}

/-! ### Running -/

/-- A match never leaves more text than there was. -/
def Shrinks (p : Pattern α) : Prop :=
  ∀ text a rest, p.run text = some (a, rest) → rest.length ≤ text.length

/-- A match takes at least one character. -/
def Takes (p : Pattern α) : Prop :=
  ∀ text a rest, p.run text = some (a, rest) → rest.length < text.length

/-- Only patterns that take a character are repeated. -/
def Productive : {α : Type} → Pattern α → Prop
  | _, .char _ => True
  | _, .finish => True
  | _, .seq p q => p.Productive ∧ q.Productive
  | _, .choice p q => p.Productive ∧ q.Productive
  | _, .star p => p.Productive ∧ p.Takes
  | _, .absent p => p.Productive
  | _, .map _ p => p.Productive

theorem run_char_eq_some {accepts : Char → Bool} {text rest : List Char} {c : Char}
    (h : (char accepts).run text = some (c, rest)) : text = c :: rest := by
  cases text with
  | nil => cases h
  | cons x text =>
    rw [run_char_cons] at h
    split at h
    · cases h
      rfl
    · cases h

theorem run_seq_eq_some {p : Pattern α} {q : Pattern β} {text rest : List Char} {ab : α × β}
    (h : (seq p q).run text = some (ab, rest)) :
    ∃ mid, p.run text = some (ab.1, mid) ∧ q.run mid = some (ab.2, rest) := by
  rw [run_seq] at h
  obtain ⟨⟨a, mid⟩, h₁, hsecond⟩ := Option.bind_eq_some_iff.mp h
  obtain ⟨⟨b, last⟩, h₂, heq⟩ := Option.map_eq_some_iff.mp hsecond
  cases heq
  exact ⟨mid, h₁, h₂⟩

theorem run_choice_eq_some {p q : Pattern α} {text : List Char} {result : α × List Char}
    (h : (choice p q).run text = some result) :
    p.run text = some result ∨ q.run text = some result := by
  rw [run_choice, Option.or_eq_some_iff] at h
  exact h.imp id fun h => h.2

theorem run_map_eq_some {f : α → β} {p : Pattern α} {text rest : List Char} {b : β}
    (h : (map f p).run text = some (b, rest)) : ∃ a, p.run text = some (a, rest) := by
  rw [run_map] at h
  obtain ⟨⟨a, last⟩, h₁, heq⟩ := Option.map_eq_some_iff.mp h
  cases heq
  exact ⟨a, h₁⟩

theorem repeated_length_le {step : List Char → Option (α × List Char)}
    (h : ∀ text a rest, step text = some (a, rest) → rest.length ≤ text.length)
    (bound text : List Char) : (repeated step bound text).2.length ≤ text.length := by
  induction bound generalizing text with
  | nil => exact Nat.le_refl _
  | cons c bound ih =>
    simp only [repeated]
    split
    · exact Nat.le_refl _
    · next a rest hs => exact Nat.le_trans (ih rest) (h text a rest hs)

theorem shrinks (p : Pattern α) : p.Shrinks := by
  induction p with
  | char accepts =>
    intro text a rest h
    obtain rfl := run_char_eq_some h
    simp
  | finish =>
    intro text a rest h
    simp only [run] at h
    split at h
    · cases h
      exact Nat.le_refl _
    · cases h
  | seq p q hp hq =>
    intro text a rest h
    obtain ⟨mid, h₁, h₂⟩ := run_seq_eq_some h
    exact Nat.le_trans (hq _ _ _ h₂) (hp _ _ _ h₁)
  | choice p q hp hq =>
    intro text a rest h
    rcases run_choice_eq_some h with h₁ | h₂
    · exact hp _ _ _ h₁
    · exact hq _ _ _ h₂
  | star p hp =>
    intro text a rest h
    simp only [run, Option.some.injEq] at h
    have hle := repeated_length_le hp text text
    rwa [h] at hle
  | absent p _ =>
    intro text a rest h
    simp only [run] at h
    split at h
    · cases h
      exact Nat.le_refl _
    · cases h
  | map f p hp =>
    intro text a rest h
    obtain ⟨x, hx⟩ := run_map_eq_some h
    exact hp _ _ _ hx

theorem Takes.run_nil {p : Pattern α} (ht : p.Takes) : p.run [] = none := by
  cases h : p.run [] with
  | none => rfl
  | some r => exact absurd (ht [] r.1 r.2 h) (by simp)

/-- A bound as long as the text lets each match happen. -/
theorem matches_repeated {p : Pattern α} (hp : ∀ text, p.Matches text (p.run text))
    (ht : p.Takes) (bound text : List Char) (hb : text.length ≤ bound.length) :
    (star p).Matches text (some (repeated p.run bound text)) := by
  induction bound generalizing text with
  | nil =>
    obtain rfl := List.eq_nil_of_length_eq_zero (Nat.le_zero.mp hb)
    exact .starEnd (ht.run_nil ▸ hp [])
  | cons c bound ih =>
    simp only [repeated]
    split
    · next h => exact .starEnd (h ▸ hp text)
    · next a rest h =>
      have hlt := ht text a rest h
      simp only [List.length_cons] at hb
      exact .star (h ▸ hp text) (ih rest (by omega))

/-- A run comes to the outcome that the rules give. -/
theorem matches_run {p : Pattern α} (h : p.Productive) (text : List Char) :
    p.Matches text (p.run text) := by
  induction p generalizing text with
  | char accepts =>
    cases text with
    | nil => exact .charEnd
    | cons c text =>
      simp only [run]
      split
      · next hc => exact .char hc
      · next hc => exact .charOther (by simpa using hc)
  | finish =>
    cases text with
    | nil => exact .finish
    | cons c text => exact .finishMore
  | seq p q hp hq =>
    have h₁ := hp h.1 text
    simp only [run]
    split
    · next e => exact .seqFirst (e ▸ h₁)
    · next a mid e =>
      have h₂ := hq h.2 mid
      split
      · next e' => exact .seqSecond (e ▸ h₁) (e' ▸ h₂)
      · next e' => exact .seq (e ▸ h₁) (e' ▸ h₂)
  | choice p q hp hq =>
    have h₁ := hp h.1 text
    simp only [run]
    split
    · next e => exact .choiceOther (e ▸ h₁) (hq h.2 text)
    · next e => exact .choice (e ▸ h₁)
  | star p hp => exact matches_repeated (hp h.1) h.2 text text (Nat.le_refl _)
  | absent p hp =>
    have h₁ := hp h text
    simp only [run]
    split
    · next e => exact .absent (e ▸ h₁)
    · next e => exact .absentFound (e ▸ h₁)
  | map f p hp =>
    have h₁ := hp h text
    simp only [run]
    split
    · next e => exact .mapFail (e ▸ h₁)
    · next e => exact .map (e ▸ h₁)

/-- Two bounds that are long enough give the same repetition. -/
theorem repeated_bound {p : Pattern α} (ht : p.Takes) (bound bound' text : List Char)
    (hb : text.length ≤ bound.length) (hb' : text.length ≤ bound'.length) :
    repeated p.run bound text = repeated p.run bound' text := by
  induction bound generalizing bound' text with
  | nil =>
    obtain rfl := List.eq_nil_of_length_eq_zero (Nat.le_zero.mp hb)
    cases bound' with
    | nil => rfl
    | cons c bound' => simp only [repeated, ht.run_nil]
  | cons c bound ih =>
    cases bound' with
    | nil =>
      obtain rfl := List.eq_nil_of_length_eq_zero (Nat.le_zero.mp hb')
      simp only [repeated, ht.run_nil]
    | cons c' bound' =>
      simp only [repeated]
      split
      · rfl
      · next a rest h =>
        have hlt := ht text a rest h
        simp only [List.length_cons] at hb hb'
        rw [ih bound' rest (by omega) (by omega)]

/-- What the rules give is what a run comes to. -/
theorem Matches.run_eq {p : Pattern α} {text : List Char} {o : Option (α × List Char)}
    (h : p.Matches text o) (hp : p.Productive) : p.run text = o := by
  induction h with
  | char ha => simp [run, ha]
  | charOther ha => simp [run, ha]
  | charEnd => rfl
  | finish => rfl
  | finishMore => rfl
  | seq _ _ ih₁ ih₂ => simp [run, ih₁ hp.1, ih₂ hp.2]
  | seqFirst _ ih => simp [run, ih hp.1]
  | seqSecond _ _ ih₁ ih₂ => simp [run, ih₁ hp.1, ih₂ hp.2]
  | choice _ ih => simp [run, ih hp.1]
  | choiceOther _ _ ih₁ ih₂ => simp [run, ih₁ hp.1, ih₂ hp.2]
  | @star _ p text mid rest a as _ _ ih₁ ih₂ =>
    have h₁ := ih₁ hp.1
    have h₂ := ih₂ hp
    simp only [run, Option.some.injEq] at h₂ ⊢
    cases text with
    | nil => rw [hp.2.run_nil] at h₁; cases h₁
    | cons c text =>
      have hlt := hp.2 _ _ _ h₁
      simp only [List.length_cons] at hlt
      simp only [repeated, h₁]
      rw [repeated_bound hp.2 text mid mid (by omega) (Nat.le_refl _), h₂]
  | @starEnd _ p text _ ih =>
    have h₁ := ih hp.1
    cases text with
    | nil => rfl
    | cons c text => simp only [run, repeated, h₁]
  | absent _ ih => simp [run, ih hp]
  | absentFound _ ih => simp [run, ih hp]
  | map _ ih => simp [run, ih hp]
  | mapFail _ ih => simp [run, ih hp]

theorem matches_iff_run {p : Pattern α} (h : p.Productive) (text : List Char)
    (o : Option (α × List Char)) : p.Matches text o ↔ p.run text = o :=
  ⟨fun ho => ho.run_eq h, fun ho => ho ▸ matches_run h text⟩

/-! ### Which patterns take a character -/

theorem takes_char (accepts : Char → Bool) : (char accepts).Takes := by
  intro text a rest h
  obtain rfl := run_char_eq_some h
  simp

theorem Takes.choice {p q : Pattern α} (hp : p.Takes) (hq : q.Takes) : (p.choice q).Takes := by
  intro text a rest h
  rcases run_choice_eq_some h with h₁ | h₂
  · exact hp _ _ _ h₁
  · exact hq _ _ _ h₂

theorem Takes.map {p : Pattern α} (hp : p.Takes) (f : α → β) : (p.map f).Takes := by
  intro text a rest h
  obtain ⟨x, hx⟩ := run_map_eq_some h
  exact hp _ _ _ hx

theorem Takes.seq {p : Pattern α} {q : Pattern β} (h : p.Takes ∨ q.Takes) :
    (p.seq q).Takes := by
  intro text a rest hrun
  obtain ⟨mid, h₁, h₂⟩ := run_seq_eq_some hrun
  rcases h with h | h
  · exact Nat.lt_of_le_of_lt (q.shrinks _ _ _ h₂) (h _ _ _ h₁)
  · exact Nat.lt_of_lt_of_le (h _ _ _ h₂) (p.shrinks _ _ _ h₁)

end WeeklyAgenda.Line.Pattern

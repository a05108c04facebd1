import WeeklyAgenda.Coverage
import WeeklyAgenda.Proofs.NeverActive

/-! What the stretches of a condition tell. They are the longest ones on which it holds, in
order, so that their minutes are exactly those at which it holds, and conditions with the
same stretches on each day of the week hold at the same moments. -/

namespace WeeklyAgenda

/-! ### Times in order -/

namespace ClockTime

theorem mem_all (t : ClockTime) : t ∈ all :=
  List.mem_filterMap.mpr ⟨t.minutes, List.mem_range.mpr t.minutes_lt, ofMinutes?_minutes t⟩

theorem minutes_of_ofMinutes? {n : Nat} {t : ClockTime} (h : ofMinutes? n = some t) :
    t.minutes = n := by
  rw [ofMinutes?] at h
  split at h
  · cases h
    rfl
  · cases h

theorem pairwise_all : all.Pairwise fun t u => t.minutes < u.minutes := by
  refine List.Pairwise.filterMap ofMinutes? ?_ List.pairwise_lt_range
  intro m n hlt t ht u hu
  rw [minutes_of_ofMinutes? ht, minutes_of_ofMinutes? hu]
  exact hlt

end ClockTime

/-! ### Lists of stretches -/

namespace Coverage

/-- Both ends are included. -/
def Covers (s : Stretch) (t : ClockTime) : Prop :=
  s.1.minutes ≤ t.minutes ∧ t.minutes ≤ s.2.minutes

/-- Next to a stretch on either side. -/
def Beside (s : Stretch) (t : ClockTime) : Prop :=
  t.minutes + 1 = s.1.minutes ∨ t.minutes = s.2.minutes + 1

/-- A stretch on which `p` holds and that cannot be made longer. -/
structure Longest (p : ClockTime → Bool) (s : Stretch) : Prop where
  first_le_last : s.1.minutes ≤ s.2.minutes
  holds : ∀ t, Covers s t → p t = true
  fails : ∀ t, Beside s t → p t = false

def Covered (stretches : List Stretch) (t : ClockTime) : Prop := ∃ s ∈ stretches, Covers s t

/-- None is empty, and there is a minute at least between each and the next. -/
structure Apart (stretches : List Stretch) : Prop where
  first_le_last : ∀ s ∈ stretches, s.1.minutes ≤ s.2.minutes
  pairwise : stretches.Pairwise fun s s' => s.2.minutes + 1 < s'.1.minutes

/-- One of the two comes first, with a minute between. -/
def Parted (s s' : Stretch) : Prop :=
  s.2.minutes + 1 < s'.1.minutes ∨ s'.2.minutes + 1 < s.1.minutes

instance : Std.Symm Parted := ⟨fun _ _ => Or.symm⟩

theorem covers_mk {first last t : ClockTime} :
    Covers (first, last) t ↔ first.minutes ≤ t.minutes ∧ t.minutes ≤ last.minutes := .rfl

theorem covered_cons {s : Stretch} {rest : List Stretch} {t : ClockTime} :
    Covered (s :: rest) t ↔ Covers s t ∨ Covered rest t := List.exists_mem_cons_iff _ _ _

theorem apart_nil : Apart [] := ⟨List.forall_mem_nil _, .nil⟩

theorem apart_cons {first last : ClockTime} {rest : List Stretch} :
    Apart ((first, last) :: rest) ↔ first.minutes ≤ last.minutes ∧
      (∀ s ∈ rest, last.minutes + 1 < s.1.minutes) ∧ Apart rest := by
  constructor
  · rintro ⟨hle, hpair⟩
    obtain ⟨hfirst, hrest⟩ := List.forall_mem_cons.mp hle
    obtain ⟨hbefore, hpair⟩ := List.pairwise_cons.mp hpair
    exact ⟨hfirst, hbefore, hrest, hpair⟩
  · rintro ⟨hfirst, hbefore, hrest, hpair⟩
    exact ⟨List.forall_mem_cons.mpr ⟨hfirst, hrest⟩, List.pairwise_cons.mpr ⟨hbefore, hpair⟩⟩

namespace Apart

variable {stretches : List Stretch} {s s' : Stretch} {t : ClockTime}

theorem covered_first (h : Apart stretches) (hs : s ∈ stretches) : Covered stretches s.1 :=
  ⟨s, hs, Nat.le_refl _, h.first_le_last s hs⟩

theorem eq_or_parted (h : Apart stretches) (hs : s ∈ stretches) (hs' : s' ∈ stretches) :
    s = s' ∨ Parted s s' := by
  have hparted : stretches.Pairwise Parted := h.pairwise.imp .inl
  by_cases heq : s = s'
  · exact .inl heq
  · exact .inr (hparted.forall hs hs' heq)

theorem not_covered_of_beside (h : Apart stretches) (hs : s ∈ stretches) (ht : Beside s t) :
    ¬ Covered stretches t := by
  rintro ⟨s', hs', hfirst, hlast⟩
  have hle := h.first_le_last s hs
  have hle' := h.first_le_last s' hs'
  rw [Beside] at ht
  rcases h.eq_or_parted hs hs' with rfl | hlt | hlt
  · omega
  · omega
  · omega

theorem pairwise_first (h : Apart stretches) :
    stretches.Pairwise fun s s' => s.1.minutes < s'.1.minutes := by
  refine h.pairwise.imp_of_mem fun hs _ hlt => ?_
  have := h.first_le_last _ hs
  omega

theorem eq_of_mem_iff {stretches' : List Stretch} (h : Apart stretches) (h' : Apart stretches')
    (hmem : ∀ s, s ∈ stretches ↔ s ∈ stretches') : stretches = stretches' := by
  have : Std.Irrefl fun s s' : Stretch => s.1.minutes < s'.1.minutes :=
    ⟨fun s => Nat.lt_irrefl _⟩
  have : Std.Antisymm fun s s' : Stretch => s.1.minutes < s'.1.minutes :=
    ⟨fun s s' hlt hgt => absurd hlt (Nat.lt_asymm hgt)⟩
  exact h.pairwise_first.eq_of_mem_iff h'.pairwise_first hmem

end Apart

namespace Longest

variable {p : ClockTime → Bool} {s s' : Stretch} {t : ClockTime}

theorem first_le (h : Longest p s) (h' : Longest p s') (ht : Covers s t) (ht' : Covers s' t) :
    s.1.minutes ≤ s'.1.minutes := by
  by_contra hlt
  -- the minute before the one stretch would belong to the other
  obtain ⟨u, hu⟩ : ∃ u : ClockTime, u.minutes + 1 = s.1.minutes :=
    ⟨⟨s.1.minutes - 1, by have := s.1.minutes_lt; omega⟩, Nat.sub_add_cancel (by omega)⟩
  have hcovers : Covers s' u := ⟨by omega, by have := ht.1; have := ht'.2; omega⟩
  have hfails := h.fails u (.inl hu)
  rw [h'.holds u hcovers] at hfails
  cases hfails

theorem last_le (h : Longest p s) (h' : Longest p s') (ht : Covers s t) (ht' : Covers s' t) :
    s'.2.minutes ≤ s.2.minutes := by
  by_contra hlt
  obtain ⟨u, hu⟩ : ∃ u : ClockTime, u.minutes = s.2.minutes + 1 :=
    ⟨⟨s.2.minutes + 1, by have := s'.2.minutes_lt; omega⟩, rfl⟩
  have hcovers : Covers s' u := ⟨by have := ht.2; have := ht'.1; omega, by omega⟩
  have hfails := h.fails u (.inr hu)
  rw [h'.holds u hcovers] at hfails
  cases hfails

/-- No two of the longest stretches have a minute in common. -/
theorem eq_of_covers (h : Longest p s) (h' : Longest p s') (ht : Covers s t)
    (ht' : Covers s' t) : s = s' := by
  have hfirst := Nat.le_antisymm (h.first_le h' ht ht') (h'.first_le h ht' ht)
  have hlast := Nat.le_antisymm (h'.last_le h ht' ht) (h.last_le h' ht ht')
  exact Prod.ext (ClockTime.ext hfirst) (ClockTime.ext hlast)

end Longest

/-! ### Building the stretches -/

section Extend

variable {stretches : List Stretch} {t : ClockTime}

theorem apart_extend (h : Apart stretches) (hlt : ∀ s ∈ stretches, t.minutes < s.1.minutes) :
    Apart (extend t stretches) := by
  cases stretches with
  | nil => exact apart_cons.mpr ⟨Nat.le_refl _, List.forall_mem_nil _, apart_nil⟩
  | cons s rest =>
    obtain ⟨first, last⟩ := s
    obtain ⟨hle, hbefore, hrest⟩ := apart_cons.mp h
    have ht : t.minutes < first.minutes := hlt _ List.mem_cons_self
    rw [extend]
    split
    · exact apart_cons.mpr ⟨by omega, hbefore, hrest⟩
    · refine apart_cons.mpr ⟨Nat.le_refl _, List.forall_mem_cons.mpr ⟨?_, fun s hs => ?_⟩, h⟩
      · show t.minutes + 1 < first.minutes
        omega
      · have := hbefore s hs
        omega

theorem covered_extend (h : Apart stretches) {u : ClockTime} :
    Covered (extend t stretches) u ↔ u = t ∨ Covered stretches u := by
  have hself : Covers (t, t) u ↔ u = t := by
    rw [ClockTime.ext_iff, covers_mk]
    omega
  cases stretches with
  | nil => rw [extend, covered_cons, hself]
  | cons s rest =>
    obtain ⟨first, last⟩ := s
    obtain ⟨hle, -, -⟩ := apart_cons.mp h
    rw [extend]
    split
    · next heq =>
      have hjoin : Covers (t, last) u ↔ u = t ∨ Covers (first, last) u := by
        rw [ClockTime.ext_iff, covers_mk, covers_mk]
        omega
      rw [covered_cons, covered_cons, hjoin, or_assoc]
    · rw [covered_cons, hself]

/-- Times in order come to stretches that are apart and that cover these times alone. -/
theorem foldr_extend {times : List ClockTime}
    (h : times.Pairwise fun t u => t.minutes < u.minutes) :
    Apart (times.foldr extend []) ∧ ∀ u, Covered (times.foldr extend []) u ↔ u ∈ times := by
  induction times with
  | nil => exact ⟨apart_nil, fun u => by simp [Covered]⟩
  | cons t times ih =>
    obtain ⟨hlt, htimes⟩ := List.pairwise_cons.mp h
    obtain ⟨hapart, hcovered⟩ := ih htimes
    rw [List.foldr_cons]
    constructor
    · refine apart_extend hapart fun s hs => hlt s.1 ?_
      exact (hcovered s.1).mp (hapart.covered_first hs)
    · intro u
      rw [covered_extend hapart, hcovered, List.mem_cons]

end Extend

/-! ### The stretches of a day -/

section Day

variable {p : ClockTime → Bool}

theorem apart_ofDay (p : ClockTime → Bool) : Apart (ofDay p) :=
  (foldr_extend (ClockTime.pairwise_all.filter p)).1

/-- The stretches cover exactly the minutes at which the condition holds. -/
theorem covered_ofDay_iff {t : ClockTime} : Covered (ofDay p) t ↔ p t = true := by
  rw [ofDay, (foldr_extend (ClockTime.pairwise_all.filter p)).2, List.mem_filter]
  exact and_iff_right t.mem_all

/-- Stretches that are apart are the longest ones on which their times are covered. -/
theorem Apart.mem_iff {stretches : List Stretch} (h : Apart stretches)
    (hp : ∀ t, Covered stretches t ↔ p t = true) {s : Stretch} :
    s ∈ stretches ↔ Longest p s := by
  have hlongest : ∀ s ∈ stretches, Longest p s := by
    intro s hs
    refine ⟨h.first_le_last s hs, fun t ht => (hp t).mp ⟨s, hs, ht⟩, fun t ht => ?_⟩
    rw [← Bool.not_eq_true, ← hp]
    exact h.not_covered_of_beside hs ht
  refine ⟨hlongest s, fun hs => ?_⟩
  have hfirst : Covers s s.1 := ⟨Nat.le_refl _, hs.first_le_last⟩
  obtain ⟨s', hs', hcovers⟩ := (hp s.1).mpr (hs.holds s.1 hfirst)
  rwa [hs.eq_of_covers (hlongest s' hs') hfirst hcovers]

theorem mem_ofDay_iff {s : Stretch} : s ∈ ofDay p ↔ Longest p s :=
  (apart_ofDay p).mem_iff fun _ => covered_ofDay_iff

/-- No other stretches that are apart cover the same minutes. -/
theorem ofDay_eq_iff {stretches : List Stretch} :
    ofDay p = stretches ↔ Apart stretches ∧ ∀ t, Covered stretches t ↔ p t = true := by
  constructor
  · rintro rfl
    exact ⟨apart_ofDay p, fun t => covered_ofDay_iff⟩
  · rintro ⟨h, hp⟩
    exact (apart_ofDay p).eq_of_mem_iff h fun s => mem_ofDay_iff.trans (h.mem_iff hp).symm

theorem ofDay_eq_nil_iff : ofDay p = [] ↔ ∀ t, p t = false := by
  simp [ofDay_eq_iff, apart_nil, Covered]

end Day

/-- A range that is not inverted is a stretch by itself. -/
theorem ofDay_timeRange (r : TimeRange) :
    ofDay r.holds = if r.never then [] else [(r.first, r.last)] := by
  cases hnever : r.never with
  | true =>
    rw [if_pos rfl, ofDay_eq_nil_iff]
    intro t
    rw [TimeRange.never_iff] at hnever
    rw [← Bool.not_eq_true, r.holds_iff]
    omega
  | false =>
    rw [← Bool.not_eq_true, TimeRange.never_iff, Nat.not_lt] at hnever
    rw [if_neg Bool.false_ne_true, ofDay_eq_iff]
    refine ⟨apart_cons.mpr ⟨hnever, List.forall_mem_nil _, apart_nil⟩, fun t => ?_⟩
    rw [r.holds_iff, covered_cons, covers_mk]
    exact or_iff_left fun ⟨_, hs, _⟩ => List.not_mem_nil hs

theorem ofDay_timeSet_eq_nil_iff (s : TimeSet) : ofDay s.holds = [] ↔ s.never = true := by
  rw [ofDay_eq_nil_iff, ← Bool.not_eq_false, ← s.exists_holds_iff, not_exists]
  simp only [Bool.not_eq_true]

/-! ### The stretches of a week -/

section Week

variable {p q : Moment → Bool}

theorem getElem?_ofWeek (p : Moment → Bool) (d : Weekday) :
    (ofWeek p)[d.index]? = some (ofDay fun t => p ⟨d, t⟩) := by
  cases d <;> rfl

theorem covered_ofWeek_iff {m : Moment} :
    (∃ stretches, (ofWeek p)[m.day.index]? = some stretches ∧ Covered stretches m.time) ↔
      p m = true := by
  rw [getElem?_ofWeek]
  constructor
  · rintro ⟨stretches, hday, hcovered⟩
    obtain rfl := Option.some.inj hday
    exact covered_ofDay_iff.mp hcovered
  · intro hm
    exact ⟨_, rfl, covered_ofDay_iff.mpr hm⟩

/-- Conditions with the same stretches on all days hold at the same moments. -/
theorem ofWeek_inj : ofWeek p = ofWeek q ↔ p = q := by
  refine ⟨fun h => funext fun m => ?_, fun h => h ▸ rfl⟩
  rw [Bool.eq_iff_iff, ← covered_ofWeek_iff, h, covered_ofWeek_iff]

end Week

end Coverage

end WeeklyAgenda

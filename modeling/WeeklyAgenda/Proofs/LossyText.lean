import WeeklyAgenda.Proofs.Encodings

/-! The text that bytes of any kind are read as, said of the bytes alone:
characters as far as there are any, and one replacement character for each
longest part that could have become one. Decoding finds this text, and there is
no other. A byte of ASCII is never part of anything longer, so that bytes on
both sides of it are read apart. -/

namespace WeeklyAgenda.Utf8

open String (utf8EncodeChar)

/-- A longest part that a character starts with, or a single byte, where the
bytes do not start with a whole character. -/
structure IsBroken (part bytes : List UInt8) : Prop where
  unreadable : ∀ c, ¬ utf8EncodeChar c <+: bytes
  ne_nil : part ≠ []
  isPrefix : part <+: bytes
  isStart : IsStart part ∨ part.length = 1
  longest : ∀ other, other <+: bytes → IsStart other ∨ other.length = 1 →
    other.length ≤ part.length

/-- The text that bytes are read as: a character where they start with one, and
else one replacement character for the longest part that could become one. -/
inductive Reads : List UInt8 → List Char → Prop
  | nil : Reads [] []
  | char (c : Char) {rest : List UInt8} {text : List Char} (h : Reads rest text) :
      Reads (utf8EncodeChar c ++ rest) (c :: text)
  | broken {part rest : List UInt8} {text : List Char} (hpart : IsBroken part (part ++ rest))
      (h : Reads rest text) : Reads (part ++ rest) (replacement :: text)

/-! ### Broken parts -/

/-- A part is broken where the next byte cannot continue it. -/
theorem isBroken_iff {part rest : List UInt8} :
    IsBroken part (part ++ rest) ↔
      part ≠ [] ∧ (IsStart part ∨ part.length = 1) ∧ (∀ c, ¬ utf8EncodeChar c <+: part) ∧
        ∀ b ∈ rest.head?, ¬ IsStart (part ++ [b]) := by
  constructor
  · intro h
    refine ⟨h.ne_nil, h.isStart, fun c hc => h.unreadable c (hc.trans h.isPrefix), ?_⟩
    intro b hb hstart
    obtain ⟨tail, rfl⟩ := List.head?_eq_some_iff.mp hb
    have hle := h.longest (part ++ [b]) ⟨tail, by simp⟩ (.inl hstart)
    rw [List.length_append, List.length_singleton] at hle
    omega
  · rintro ⟨hne, hpart, hno, hstuck⟩
    have hlong : ∀ other, other <+: part ++ rest → part.length < other.length →
        ¬ IsStart other := by
      intro other hother hlt hstart
      cases rest with
      | nil =>
        have hle := hother.length_le
        rw [List.append_nil] at hle
        omega
      | cons b rest =>
        have hlen : (part ++ [b]).length = part.length + 1 := List.length_append
        refine hstuck b rfl (hstart.mono ?_)
        exact List.prefix_of_prefix_length_le ⟨rest, by simp⟩ hother (by omega)
    refine ⟨fun c hc => ?_, hne, List.prefix_append part rest, hpart, fun other hother h => ?_⟩
    · rcases Nat.lt_or_ge part.length (utf8EncodeChar c).length with hlt | hle
      · exact hlong _ hc hlt ⟨c, List.prefix_rfl⟩
      · exact hno c (List.prefix_of_prefix_length_le hc (List.prefix_append part rest) hle)
    · by_contra hlt
      rcases h with h | h
      · exact hlong other hother (by omega) h
      · have := List.length_pos_of_ne_nil hne
        omega

theorem IsBroken.eq {part other bytes : List UInt8} (h : IsBroken part bytes)
    (h' : IsBroken other bytes) : part = other := by
  have hle := h.longest other h'.isPrefix h'.isStart
  have hge := h'.longest part h.isPrefix h.isStart
  exact (List.prefix_of_prefix_length_le h.isPrefix h'.isPrefix hge).eq_of_length_le hle

/-- Bytes in front of one that does not fit, or of the end. -/
theorem Behind.isBroken {s : State} {pending rest : List UInt8} (h : Behind s pending)
    (hstuck : ∀ b ∈ rest.head?, ¬ IsStart (pending ++ [b])) : IsBroken pending (pending ++ rest) :=
  isBroken_iff.mpr ⟨h.ne_nil, .inl h.isStart, h.no_prefix_encode, hstuck⟩

theorem isBroken_bad {b : UInt8} (h : 0x80 ≤ b.toNat ∧ b.toNat < 0xC2 ∨ 0xF5 ≤ b.toNat)
    (rest : List UInt8) : IsBroken [b] ([b] ++ rest) := by
  have hno := not_isStart_of_bad h
  refine isBroken_iff.mpr ⟨by simp, .inr rfl, fun c hc => ?_, fun x _ hx => ?_⟩
  · refine hno ⟨c, List.prefix_of_prefix_length_le List.prefix_rfl hc ?_⟩
    exact List.length_pos_of_ne_nil String.utf8EncodeChar_ne_nil
  · exact hno (hx.mono (List.prefix_append [b] [x]))

/-! ### Decoding -/

theorem decodeFrom_cons (s : State) (b : UInt8) (rest : List UInt8) :
    decodeFrom s (b :: rest) = (step s b.toNat).1 ++ decodeFrom (step s b.toNat).2 rest := rfl

/-- A byte that does not fit is read afresh. -/
theorem decodeFrom_stuck {bits after low high : Nat} {b : UInt8}
    (hb : ¬ (low ≤ b.toNat ∧ b.toNat ≤ high)) (rest : List UInt8) :
    decodeFrom (.within bits after low high) (b :: rest) = replacement :: decode (b :: rest) := by
  have hstep : step (.within bits after low high) b.toNat =
      (replacement :: (start b.toNat).1, (start b.toNat).2) := by rw [step, if_neg hb]
  rw [decodeFrom_cons, hstep]
  rfl

/-- Decoding reads the bytes, those that the state stands behind included. -/
theorem reads_decodeFrom (bytes : List UInt8) :
    Reads bytes (decode bytes) ∧
      ∀ s pending, Behind s pending → Reads (pending ++ bytes) (decodeFrom s bytes) := by
  induction bytes with
  | nil =>
    refine ⟨.nil, fun s pending h => ?_⟩
    have hfinish : decodeFrom s [] = [replacement] := by
      obtain ⟨tail, c, hends⟩ := h.exists_ends
      cases hends <;> rfl
    rw [hfinish]
    exact .broken (h.isBroken (by simp)) .nil
  | cons b rest ih =>
    have hready : Reads (b :: rest) (decode (b :: rest)) := by
      rw [decode, decodeFrom_cons, step]
      rcases start_cases b with ⟨hb, hstart⟩ | ⟨s, hlead, hstart⟩ | ⟨hbad, hstart⟩
      · rw [hstart]
        have h := ih.1.char (Char.ofNat b.toNat)
        rwa [encode_ascii hb] at h
      · rw [hstart]
        exact ih.2 s [b] hlead.behind
      · rw [hstart]
        have h := Reads.broken (isBroken_bad hbad rest) ih.1
        exact h
    refine ⟨hready, fun s pending h => ?_⟩
    cases s with
    | ready =>
      obtain ⟨tail, c, hends⟩ := h.exists_ends
      cases hends
    | within bits after low high =>
      by_cases hb : low ≤ b.toNat ∧ b.toNat ≤ high
      · rw [decodeFrom_cons, step, if_pos hb, List.append_cons]
        cases after with
        | zero =>
          rw [← h.encode_last hb.1 hb.2]
          exact ih.1.char _
        | succ after => exact ih.2 _ _ (h.next hb.1 hb.2)
      · rw [decodeFrom_stuck hb]
        have hstuck : ∀ x ∈ (b :: rest).head?, ¬ IsStart (pending ++ [x]) := by
          rintro x ⟨⟩
          exact h.not_isStart hb
        exact .broken (h.isBroken hstuck) hready

/-- Bytes read as one text only. -/
theorem Reads.eq {bytes : List UInt8} {text other : List Char} (h : Reads bytes text)
    (h' : Reads bytes other) : text = other := by
  induction h generalizing other with
  | nil =>
    generalize hbytes : ([] : List UInt8) = bytes at h'
    cases h' with
    | nil => rfl
    | char c => simp [String.utf8EncodeChar_ne_nil] at hbytes
    | broken hpart => simp [hpart.ne_nil] at hbytes
  | @char c rest text h ih =>
    generalize hbytes : utf8EncodeChar c ++ rest = bytes at h'
    cases h' with
    | nil => simp [String.utf8EncodeChar_ne_nil] at hbytes
    | @char d rest' text' h' =>
      obtain rfl : c = d := by
        rcases List.prefix_or_prefix_of_prefix ⟨rest, hbytes⟩ ⟨rest', rfl⟩ with hp | hp
        · exact eq_of_prefix_encode hp
        · exact (eq_of_prefix_encode hp).symm
      rw [ih (List.append_cancel_left hbytes ▸ h')]
    | broken hpart => exact absurd ⟨rest, hbytes⟩ (hpart.unreadable c)
  | @broken part rest text hpart h ih =>
    generalize hbytes : part ++ rest = bytes at h'
    cases h' with
    | nil => simp [hpart.ne_nil] at hbytes
    | @char d rest' text' h' => exact absurd ⟨rest', hbytes.symm⟩ (hpart.unreadable d)
    | @broken part' rest' text' hpart' h' =>
      obtain rfl := hpart.eq (hbytes ▸ hpart')
      rw [ih (List.append_cancel_left hbytes ▸ h')]

/-- Decoding gives the one text that the bytes read as. -/
theorem reads_iff {bytes : List UInt8} {text : List Char} :
    Reads bytes text ↔ text = decode bytes := by
  constructor
  · exact fun h => h.eq (reads_decodeFrom bytes).1
  · rintro rfl
    exact (reads_decodeFrom bytes).1

theorem isEmpty_decode (bytes : List UInt8) : (decode bytes).isEmpty = bytes.isEmpty := by
  have h : Reads bytes (decode bytes) := reads_iff.mpr rfl
  generalize decode bytes = text at h
  cases h with
  | nil => rfl
  | char c => simp [String.utf8EncodeChar_ne_nil]
  | broken hpart => simp [hpart.ne_nil]

theorem decode_encode (text : List Char) : decode (encode text) = text := by
  have h : Reads (encode text) text := by
    induction text with
    | nil => exact .nil
    | cons c text ih => exact ih.char c
  exact (reads_iff.mp h).symm

/-! ### ASCII -/

section

variable {b : UInt8} (hb : b.toNat < 0x80)
include hb

theorem IsBroken.append_ascii {part rest : List UInt8} (h : IsBroken part (part ++ rest))
    (after : List UInt8) : IsBroken part (part ++ (rest ++ b :: after)) := by
  obtain ⟨hne, hpart, hno, hstuck⟩ := isBroken_iff.mp h
  refine isBroken_iff.mpr ⟨hne, hpart, hno, ?_⟩
  cases rest with
  | nil =>
    rintro x ⟨⟩ ⟨c, hc⟩
    have henc := encode_eq_of_mem hb (hc.subset (by simp : b ∈ part ++ [b]))
    have hle := hc.length_le
    rw [henc, List.length_append] at hle
    exact hne (by simpa using hle)
  | cons x rest => exact hstuck

theorem ofNat_ne_replacement : Char.ofNat b.toNat ≠ replacement := by
  intro h
  have hcode := congrArg Char.toNat h
  rw [Char.toNat_ofNat, if_pos (by omega), show replacement.toNat = 0xFFFD from rfl] at hcode
  omega

/-- Bytes on both sides of an ASCII byte are read apart. -/
theorem reads_append_ascii {bytes : List UInt8} {s t : List Char} :
    Reads bytes (s ++ Char.ofNat b.toNat :: t) ↔
      ∃ before after, bytes = before ++ b :: after ∧ Reads before s ∧ Reads after t := by
  constructor
  · intro h
    generalize htext : s ++ Char.ofNat b.toNat :: t = text at h
    induction h generalizing s with
    | nil => simp at htext
    | @char c rest text h ih =>
      cases s with
      | nil =>
        obtain ⟨rfl, rfl⟩ := List.cons.inj htext
        exact ⟨[], rest, by rw [encode_ascii hb]; rfl, .nil, h⟩
      | cons d s =>
        obtain ⟨rfl, rfl⟩ := List.cons.inj htext
        obtain ⟨before, after, rfl, hs, ht⟩ := ih rfl
        exact ⟨_, after, (List.append_assoc ..).symm, hs.char d, ht⟩
    | @broken part rest text hpart h ih =>
      cases s with
      | nil => exact absurd (List.cons.inj htext).1 (ofNat_ne_replacement hb)
      | cons d s =>
        obtain ⟨rfl, rfl⟩ := List.cons.inj htext
        obtain ⟨before, after, rfl, hs, ht⟩ := ih rfl
        refine ⟨part ++ before, after, (List.append_assoc ..).symm, .broken ?_ hs, ht⟩
        obtain ⟨hne, hpart, hno, hstuck⟩ := isBroken_iff.mp hpart
        refine isBroken_iff.mpr ⟨hne, hpart, hno, fun x hx => hstuck x ?_⟩
        rw [List.head?_append, Option.mem_def.mp hx]
        rfl
  · rintro ⟨before, after, rfl, hs, ht⟩
    induction hs with
    | nil =>
      have h := ht.char (Char.ofNat b.toNat)
      rwa [encode_ascii hb] at h
    | char c h ih =>
      rw [List.append_assoc]
      exact ih.char c
    | broken hpart h ih =>
      rw [List.append_assoc]
      exact .broken (hpart.append_ascii hb after) ih

theorem decode_append_ascii (before after : List UInt8) :
    decode (before ++ b :: after) = decode before ++ Char.ofNat b.toNat :: decode after :=
  (reads_iff.mp ((reads_append_ascii hb).mpr
    ⟨before, after, rfl, reads_iff.mpr rfl, reads_iff.mpr rfl⟩)).symm

theorem mem_decode {bytes : List UInt8} : Char.ofNat b.toNat ∈ decode bytes ↔ b ∈ bytes := by
  constructor
  · intro h
    obtain ⟨s, t, hst⟩ := List.append_of_mem h
    obtain ⟨before, after, rfl, -⟩ := (reads_append_ascii hb).mp (hst ▸ reads_iff.mpr rfl)
    simp
  · intro h
    obtain ⟨before, after, rfl⟩ := List.append_of_mem h
    simp [decode_append_ascii hb]

theorem getLast?_of_decode {bytes : List UInt8}
    (h : (decode bytes).getLast? = some (Char.ofNat b.toNat)) : bytes.getLast? = some b := by
  obtain ⟨s, hs⟩ := List.getLast?_eq_some_iff.mp h
  obtain ⟨before, after, rfl, -, hafter⟩ := (reads_append_ascii hb).mp (reads_iff.mpr hs.symm)
  cases hafter
  simp

end

end WeeklyAgenda.Utf8

import Mathlib
import WeeklyAgenda.Text.Utf8

/-! The bytes of characters and the states in which decoding waits for them. A
lead byte opens a character of two, three or four bytes and leaves a state that
only the remaining bytes of some character end. No character starts with
another one, so a state that stands behind some bytes knows all that can follow
them. -/

namespace WeeklyAgenda.Utf8

open String (utf8EncodeChar)

/-- The first bytes of characters of two, three and four bytes, each with the
state that waits for the others. -/
inductive Lead : UInt8 → State → Prop
  | two {b : UInt8} {bits : Nat} (hb : b.toNat = 0xC0 + bits) (above : 2 ≤ bits)
      (below : bits < 32) : Lead b (.within bits 0 0x80 0xBF)
  | three {b : UInt8} {bits low high : Nat} (hb : b.toNat = 0xE0 + bits) (below : bits < 16)
      (hlow : bits = 0 ∧ low = 0xA0 ∨ bits ≠ 0 ∧ low = 0x80)
      (hhigh : bits = 0xD ∧ high = 0x9F ∨ bits ≠ 0xD ∧ high = 0xBF) :
      Lead b (.within bits 1 low high)
  | four {b : UInt8} {bits low high : Nat} (hb : b.toNat = 0xF0 + bits) (below : bits ≤ 4)
      (hlow : bits = 0 ∧ low = 0x90 ∨ bits ≠ 0 ∧ low = 0x80)
      (hhigh : bits = 4 ∧ high = 0x8F ∨ bits ≠ 4 ∧ high = 0xBF) :
      Lead b (.within bits 2 low high)

/-- The bytes that take a state to a character. -/
inductive Ends : State → List UInt8 → Char → Prop
  | last {bits low high : Nat} {b : UInt8} {c : Char} (hlow : low ≤ b.toNat)
      (hhigh : b.toNat ≤ high) (hc : c = Char.ofNat (64 * bits + (b.toNat - 0x80))) :
      Ends (.within bits 0 low high) [b] c
  | next {bits after low high : Nat} {b : UInt8} {tail : List UInt8} {c : Char}
      (hlow : low ≤ b.toNat) (hhigh : b.toNat ≤ high)
      (ends : Ends (.within (64 * bits + (b.toNat - 0x80)) after 0x80 0xBF) tail c) :
      Ends (.within bits (after + 1) low high) (b :: tail) c

/-- Bytes that some character starts with. -/
def IsStart (bytes : List UInt8) : Prop := ∃ c : Char, bytes <+: utf8EncodeChar c

/-- A state stands behind the bytes that go on to a character just as the state
does. -/
structure Behind (s : State) (pending : List UInt8) : Prop where
  ne_nil : pending ≠ []
  exists_ends : ∃ tail c, Ends s tail c
  encode_iff : ∀ tail c, utf8EncodeChar c = pending ++ tail ↔ Ends s tail c

/-! ### Lead bytes -/

theorem Lead.eq {b : UInt8} {s t : State} (hs : Lead b s) (ht : Lead b t) : s = t := by
  cases hs <;> cases ht <;> first | omega | grind

theorem Lead.bounds {b : UInt8} {s : State} (h : Lead b s) :
    0xC2 ≤ b.toNat ∧ b.toNat < 0xF5 := by
  cases h <;> omega

/-- A byte outside of a character is one, opens one or is part of none there. -/
theorem start_cases (b : UInt8) :
    (b.toNat < 0x80 ∧ start b.toNat = ([Char.ofNat b.toNat], .ready)) ∨
      (∃ s, Lead b s ∧ start b.toNat = ([], s)) ∨
      (0x80 ≤ b.toNat ∧ b.toNat < 0xC2 ∨ 0xF5 ≤ b.toNat) ∧
        start b.toNat = ([replacement], .ready) := by
  -- one occurrence of `start`, so that each branch is split off only once
  generalize hstart : start b.toNat = result
  unfold start at hstart
  split at hstart
  · exact .inl ⟨by omega, hstart.symm⟩
  right
  split at hstart
  · exact .inr ⟨by omega, hstart.symm⟩
  split at hstart
  · exact .inl ⟨_, .two (by omega) (by omega) (by omega), hstart.symm⟩
  split at hstart
  · exact .inl ⟨_, .three (by omega) (by omega) (by omega) (by omega), hstart.symm⟩
  split at hstart
  · exact .inl ⟨_, .three (by omega) (by omega) (by omega) (by omega), hstart.symm⟩
  split at hstart
  · exact .inl ⟨_, .three (by omega) (by omega) (by omega) (by omega), hstart.symm⟩
  split at hstart
  · exact .inl ⟨_, .four (by omega) (by omega) (by omega) (by omega), hstart.symm⟩
  split at hstart
  · exact .inl ⟨_, .four (by omega) (by omega) (by omega) (by omega), hstart.symm⟩
  split at hstart
  · exact .inl ⟨_, .four (by omega) (by omega) (by omega) (by omega), hstart.symm⟩
  · exact .inr ⟨by omega, hstart.symm⟩

/-! ### Ends of characters -/

theorem ends_last {bits low high : Nat} {bytes : List UInt8} {c : Char} :
    Ends (.within bits 0 low high) bytes c ↔
      ∃ b : UInt8, bytes = [b] ∧ low ≤ b.toNat ∧ b.toNat ≤ high ∧
        c = Char.ofNat (64 * bits + (b.toNat - 0x80)) := by
  constructor
  · rintro (⟨hlow, hhigh, hc⟩)
    exact ⟨_, rfl, hlow, hhigh, hc⟩
  · rintro ⟨b, rfl, hlow, hhigh, hc⟩
    exact .last hlow hhigh hc

theorem ends_next {bits after low high : Nat} {bytes : List UInt8} {c : Char} :
    Ends (.within bits (after + 1) low high) bytes c ↔
      ∃ (b : UInt8) (tail : List UInt8), bytes = b :: tail ∧ low ≤ b.toNat ∧ b.toNat ≤ high ∧
        Ends (.within (64 * bits + (b.toNat - 0x80)) after 0x80 0xBF) tail c := by
  constructor
  · rintro (_ | ⟨hlow, hhigh, ends⟩)
    exact ⟨_, _, rfl, hlow, hhigh, ends⟩
  · rintro ⟨b, tail, rfl, hlow, hhigh, ends⟩
    exact .next hlow hhigh ends

/-- The last byte holds the last six bits of a character. -/
theorem Ends.last_ofNat {bits low high n : Nat} {c : Char} (hlow : low ≤ n % 64 + 0x80)
    (hhigh : n % 64 + 0x80 ≤ high) (hc : c.toNat = 64 * bits + n % 64) :
    Ends (.within bits 0 low high) [UInt8.ofNat (n % 64 + 0x80)] c := by
  have hb : (UInt8.ofNat (n % 64 + 0x80)).toNat = n % 64 + 0x80 :=
    UInt8.toNat_ofNat_of_lt' (show _ < 256 by omega)
  refine .last (by omega) (by omega) ?_
  rw [hb, Nat.add_sub_cancel, ← hc, Char.ofNat_toNat]

theorem Ends.next_ofNat {bits after low high n : Nat} {tail : List UInt8} {c : Char}
    (hlow : low ≤ n % 64 + 0x80) (hhigh : n % 64 + 0x80 ≤ high)
    (ends : Ends (.within (64 * bits + n % 64) after 0x80 0xBF) tail c) :
    Ends (.within bits (after + 1) low high) (UInt8.ofNat (n % 64 + 0x80) :: tail) c := by
  have hb : (UInt8.ofNat (n % 64 + 0x80)).toNat = n % 64 + 0x80 :=
    UInt8.toNat_ofNat_of_lt' (show _ < 256 by omega)
  refine .next (by omega) (by omega) ?_
  rwa [hb, Nat.add_sub_cancel]

theorem exists_ends (bits after : Nat) {low high : Nat} (hle : low ≤ high) (hlt : low < 256) :
    ∃ tail c, Ends (.within bits after low high) tail c := by
  have hb := UInt8.toNat_ofNat_of_lt' hlt
  induction after generalizing bits low high with
  | zero => exact ⟨[UInt8.ofNat low], _, .last (by omega) (by omega) rfl⟩
  | succ after ih =>
    obtain ⟨tail, c, h⟩ := ih (64 * bits + (low - 0x80)) (show 0x80 ≤ 0xBF by omega) (by omega)
      (UInt8.toNat_ofNat_of_lt' (show _ < 256 by omega))
    exact ⟨UInt8.ofNat low :: tail, c, .next (by omega) (by omega) (hb.symm ▸ h)⟩

theorem le_of_mem_ends {bits after low high : Nat} {tail : List UInt8} {c : Char}
    (h : Ends (.within bits after low high) tail c) (hlow : 0x80 ≤ low) :
    ∀ b ∈ tail, 0x80 ≤ b.toNat := by
  induction after generalizing bits low high tail with
  | zero =>
    obtain ⟨x, rfl, hx, -⟩ := ends_last.mp h
    simpa using hlow.trans hx
  | succ after ih =>
    obtain ⟨x, tail, rfl, hx, -, h⟩ := ends_next.mp h
    simpa using ⟨hlow.trans hx, ih h (by omega)⟩

/-! ### Characters -/

theorem encode_ascii {b : UInt8} (h : b.toNat < 0x80) :
    utf8EncodeChar (Char.ofNat b.toNat) = [b] := by
  rw [utf8EncodeChar, Char.val_ofNat (by omega),
    UInt32.toNat_ofNat_of_lt' (show _ < 2 ^ 32 by omega), if_pos (by omega), UInt8.ofNat_toNat]

theorem exists_bound (p : Prop) (m n : Nat) : ∃ k, p ∧ k = m ∨ ¬ p ∧ k = n := by
  by_cases h : p
  · exact ⟨m, .inl ⟨h, rfl⟩⟩
  · exact ⟨n, .inr ⟨h, rfl⟩⟩

/-- A character is a byte of ASCII or a lead byte and what ends it. -/
theorem encode_cases (c : Char) :
    (c.toNat < 0x80 ∧ utf8EncodeChar c = [UInt8.ofNat c.toNat]) ∨
      ∃ b tail s, utf8EncodeChar c = b :: tail ∧ Lead b s ∧ Ends s tail c := by
  have hvalid : c.toNat < 0xD800 ∨ 0xDFFF < c.toNat ∧ c.toNat < 0x110000 := c.valid
  rw [utf8EncodeChar, show c.val.toNat = c.toNat from rfl]
  split
  · exact .inl ⟨by omega, rfl⟩
  right
  split
  · have hb : (UInt8.ofNat (c.toNat / 64 % 32 + 0xC0)).toNat = 0xC0 + c.toNat / 64 := by
      rw [UInt8.toNat_ofNat_of_lt' (show _ < 256 by omega)]
      omega
    exact ⟨_, _, _, rfl, .two hb (by omega) (by omega),
      .last_ofNat (by omega) (by omega) (by omega)⟩
  split
  · have hb : (UInt8.ofNat (c.toNat / 4096 % 16 + 0xE0)).toNat = 0xE0 + c.toNat / 4096 := by
      rw [UInt8.toNat_ofNat_of_lt' (show _ < 256 by omega)]
      omega
    obtain ⟨low, hlow⟩ := exists_bound (c.toNat / 4096 = 0) 0xA0 0x80
    obtain ⟨high, hhigh⟩ := exists_bound (c.toNat / 4096 = 0xD) 0x9F 0xBF
    exact ⟨_, _, _, rfl, .three hb (by omega) hlow hhigh, .next_ofNat (by omega) (by omega)
      (.last_ofNat (by omega) (by omega) (by omega))⟩
  · have hb : (UInt8.ofNat (c.toNat / 262144 % 8 + 0xF0)).toNat = 0xF0 + c.toNat / 262144 := by
      rw [UInt8.toNat_ofNat_of_lt' (show _ < 256 by omega)]
      omega
    obtain ⟨low, hlow⟩ := exists_bound (c.toNat / 262144 = 0) 0x90 0x80
    obtain ⟨high, hhigh⟩ := exists_bound (c.toNat / 262144 = 4) 0x8F 0xBF
    exact ⟨_, _, _, rfl, .four hb (by omega) hlow hhigh, .next_ofNat (by omega) (by omega)
      (.next_ofNat (by omega) (by omega) (.last_ofNat (by omega) (by omega) (by omega)))⟩

/-- A lead byte and what ends its state make up a character. -/
theorem encode_of_ends {b : UInt8} {tail : List UInt8} {s : State} {c : Char}
    (hlead : Lead b s) (hends : Ends s tail c) : utf8EncodeChar c = b :: tail := by
  have byte {n : Nat} {x : UInt8} (h : n = x.toNat) : UInt8.ofNat n = x := by
    rw [h, UInt8.ofNat_toNat]
  cases hlead with
  | two hb habove hbelow =>
    obtain ⟨x, rfl, hx, hx', hc⟩ := ends_last.mp hends
    rw [hc, utf8EncodeChar, Char.val_ofNat (by omega),
      UInt32.toNat_ofNat_of_lt' (show _ < 2 ^ 32 by omega), if_neg (by omega), if_pos (by omega),
      byte (x := b) (by omega), byte (x := x) (by omega)]
  | three hb hbelow hlow hhigh =>
    obtain ⟨x, tail, rfl, hx, hx', hends⟩ := ends_next.mp hends
    obtain ⟨y, rfl, hy, hy', hc⟩ := ends_last.mp hends
    rw [hc, utf8EncodeChar, Char.val_ofNat (by omega),
      UInt32.toNat_ofNat_of_lt' (show _ < 2 ^ 32 by omega), if_neg (by omega), if_neg (by omega),
      if_pos (by omega), byte (x := b) (by omega), byte (x := x) (by omega),
      byte (x := y) (by omega)]
  | four hb hbelow hlow hhigh =>
    obtain ⟨x, tail, rfl, hx, hx', hends⟩ := ends_next.mp hends
    obtain ⟨y, tail, rfl, hy, hy', hends⟩ := ends_next.mp hends
    obtain ⟨z, rfl, hz, hz', hc⟩ := ends_last.mp hends
    rw [hc, utf8EncodeChar, Char.val_ofNat (by omega),
      UInt32.toNat_ofNat_of_lt' (show _ < 2 ^ 32 by omega), if_neg (by omega), if_neg (by omega),
      if_neg (by omega), byte (x := b) (by omega), byte (x := x) (by omega),
      byte (x := y) (by omega), byte (x := z) (by omega)]

/-- A byte of ASCII is a character by itself and part of no other. -/
theorem encode_eq_of_mem {c : Char} {b : UInt8} (hb : b.toNat < 0x80)
    (h : b ∈ utf8EncodeChar c) : utf8EncodeChar c = [b] := by
  rcases encode_cases c with ⟨-, henc⟩ | ⟨x, tail, s, henc, hlead, hends⟩
  · rw [henc] at h ⊢
    rw [List.mem_singleton.mp h]
  · rw [henc] at h
    have hx := hlead.bounds
    have htail : ∀ y ∈ tail, 0x80 ≤ y.toNat := by
      cases hlead with
      | two => exact le_of_mem_ends hends (by omega)
      | three => exact le_of_mem_ends hends (by omega)
      | four => exact le_of_mem_ends hends (by omega)
    rcases List.mem_cons.mp h with rfl | h
    · omega
    · have := htail b h
      omega

/-- No character starts with another one. -/
theorem eq_of_prefix_encode {c d : Char} (h : utf8EncodeChar c <+: utf8EncodeChar d) : c = d := by
  obtain ⟨rest, hrest⟩ := h
  have hc := ByteArray.utf8DecodeChar?_utf8EncodeChar_append (b := rest.toByteArray) (c := c)
  have hd := ByteArray.utf8DecodeChar?_utf8EncodeChar_append (b := ByteArray.empty) (c := d)
  rw [← List.toByteArray_append, hrest] at hc
  rw [ByteArray.append_empty, hc] at hd
  exact Option.some.inj hd

/-! ### Bytes that wait for others -/

theorem IsStart.mono {p q : List UInt8} (hq : IsStart q) (h : p <+: q) : IsStart p := by
  obtain ⟨c, hc⟩ := hq
  exact ⟨c, h.trans hc⟩

theorem not_isStart_of_bad {b : UInt8} (h : 0x80 ≤ b.toNat ∧ b.toNat < 0xC2 ∨ 0xF5 ≤ b.toNat) :
    ¬ IsStart [b] := by
  rintro ⟨c, hc⟩
  rcases encode_cases c with ⟨hlt, henc⟩ | ⟨b', tail, s, henc, hlead, -⟩
  · rw [henc, List.cons_prefix_cons] at hc
    have := UInt8.toNat_ofNat_of_lt' (show c.toNat < 256 by omega)
    rw [← hc.1] at this
    omega
  · rw [henc, List.cons_prefix_cons] at hc
    have hb := hlead.bounds
    rw [← hc.1] at hb
    omega

theorem Lead.behind {b : UInt8} {s : State} (h : Lead b s) : Behind s [b] where
  ne_nil := by simp
  exists_ends := by
    cases h with
    | two => exact Utf8.exists_ends _ _ (by omega) (by omega)
    | three => exact Utf8.exists_ends _ _ (by omega) (by omega)
    | four => exact Utf8.exists_ends _ _ (by omega) (by omega)
  encode_iff tail c := by
    refine ⟨fun heq => ?_, encode_of_ends h⟩
    rcases encode_cases c with ⟨hc, henc⟩ | ⟨b', tail', s', henc, hlead, hends⟩
    · rw [henc] at heq
      obtain ⟨rfl, -⟩ := List.cons.inj heq
      have := h.bounds
      rw [UInt8.toNat_ofNat_of_lt' (show _ < 256 by omega)] at this
      omega
    · rw [henc] at heq
      obtain ⟨rfl, rfl⟩ := List.cons.inj heq
      rwa [h.eq hlead]

namespace Behind

variable {s : State} {bits after low high : Nat} {pending : List UInt8} {b : UInt8}

theorem next (h : Behind (.within bits (after + 1) low high) pending) (hlow : low ≤ b.toNat)
    (hhigh : b.toNat ≤ high) :
    Behind (.within (64 * bits + (b.toNat - 0x80)) after 0x80 0xBF) (pending ++ [b]) where
  ne_nil := by simp
  exists_ends := Utf8.exists_ends _ _ (by omega) (by omega)
  encode_iff tail c := by
    rw [List.append_assoc, List.singleton_append, h.encode_iff, ends_next]
    constructor
    · rintro ⟨b', tail', heq, -, -, hends⟩
      obtain ⟨rfl, rfl⟩ := List.cons.inj heq
      exact hends
    · exact fun hends => ⟨b, tail, rfl, hlow, hhigh, hends⟩

theorem encode_last (h : Behind (.within bits 0 low high) pending) (hlow : low ≤ b.toNat)
    (hhigh : b.toNat ≤ high) :
    utf8EncodeChar (Char.ofNat (64 * bits + (b.toNat - 0x80))) = pending ++ [b] :=
  (h.encode_iff _ _).mpr (.last hlow hhigh rfl)

theorem isStart (h : Behind s pending) : IsStart pending := by
  obtain ⟨tail, c, hends⟩ := h.exists_ends
  exact ⟨c, tail, ((h.encode_iff tail c).mpr hends).symm⟩

theorem not_isStart (h : Behind (.within bits after low high) pending)
    (hb : ¬ (low ≤ b.toNat ∧ b.toNat ≤ high)) : ¬ IsStart (pending ++ [b]) := by
  rintro ⟨c, tail, heq⟩
  rw [List.append_assoc, List.singleton_append] at heq
  cases (h.encode_iff _ _).mp heq.symm with
  | last hlow hhigh => exact hb ⟨hlow, hhigh⟩
  | next hlow hhigh => exact hb ⟨hlow, hhigh⟩

/-- The bytes so far hold no whole character. -/
theorem no_prefix_encode (h : Behind s pending) (c : Char) : ¬ utf8EncodeChar c <+: pending := by
  intro hpre
  obtain ⟨tail, d, hends⟩ := h.exists_ends
  have hd := (h.encode_iff tail d).mpr hends
  obtain rfl : c = d := eq_of_prefix_encode (hd ▸ hpre.trans (List.prefix_append pending tail))
  have hlen := hpre.length_le
  rw [hd, List.length_append] at hlen
  have htail : tail ≠ [] := by cases hends <;> simp
  have := List.length_pos_of_ne_nil htail
  omega

end Behind

end WeeklyAgenda.Utf8

import WeeklyAgenda.Proofs.LossyText
import WeeklyAgenda.Proofs.Parts
import WeeklyAgenda.Storage.Load

/-! The lines that a reader delivers. They are those of all its bytes, however
these are cut into chunks: a line in progress is carried over each cut. As a
line break and a carriage return are read apart from the bytes next to them,
the lines of the bytes, each decoded for itself, are the lines of the decoded
text. -/

namespace WeeklyAgenda

open Pieces

/-- The lines of a text: what stands between line breaks, each without one
carriage return at its end, and no last line that is empty. -/
def textLines (text : List Char) : List String :=
  (Pieces.lines (· == '\n') text).map fun line => String.ofList (dropLastIf (· == '\r') line)

theorem lineFeed_not_mem_textLines {text : List Char} {line : String} (h : line ∈ textLines text) :
    '\n' ∉ line.toList := by
  obtain ⟨part, hpart, rfl⟩ := List.mem_map.mp h
  obtain ⟨-, -, -, hfree, -⟩ := mem_pieces_iff.mp (mem_of_mem_dropLastIf hpart)
  rw [String.toList_ofList]
  exact fun hm => free_beq.mp hfree (mem_of_mem_dropLastIf hm)

namespace Reader

/-- The texts of the lines of some bytes. -/
def linesOf (bytes : List UInt8) : List String :=
  (Pieces.lines (· == lineFeed) bytes).map lineText

/-! ### Chunks -/

theorem feed_nil (current : List UInt8) : feed current [] = ([], current) := rfl

theorem feed_lineFeed (current rest : List UInt8) :
    feed current (lineFeed :: rest) =
      (current.reverse :: (feed [] rest).1, (feed [] rest).2) := by
  rw [feed, if_pos rfl]

theorem feed_of_ne (current rest : List UInt8) {b : UInt8} (hb : b ≠ lineFeed) :
    feed current (b :: rest) = feed (b :: current) rest := by
  rw [feed, if_neg hb]

/-- A line in progress is carried over a cut. -/
theorem feed_append (current a b : List UInt8) :
    feed current (a ++ b) =
      ((feed current a).1 ++ (feed (feed current a).2 b).1, (feed (feed current a).2 b).2) := by
  induction a generalizing current with
  | nil => rfl
  | cons x a ih =>
    rw [List.cons_append]
    by_cases hx : x = lineFeed
    · rw [hx, feed_lineFeed, feed_lineFeed, ih]
      rfl
    · rw [feed_of_ne current _ hx, feed_of_ne current _ hx, ih]

/-- The finished lines and the line in progress are the parts between line feeds. -/
theorem pieces_feed (current bytes : List UInt8) (h : lineFeed ∉ current) :
    pieces (· == lineFeed) (current.reverse ++ bytes) =
      (feed current bytes).1 ++ [(feed current bytes).2.reverse] := by
  have hfree : Free (· == lineFeed) current.reverse := free_beq.mpr (by simpa using h)
  induction bytes generalizing current with
  | nil => rw [List.append_nil, pieces_of_free hfree, feed_nil, List.nil_append]
  | cons b bytes ih =>
    by_cases hb : b = lineFeed
    · rw [hb, pieces_part bytes hfree (by simp), feed_lineFeed, List.cons_append,
        ← ih [] (by simp) free_nil, List.reverse_nil, List.nil_append]
    · have hcons : lineFeed ∉ b :: current := by simp [h, Ne.symm hb]
      have hfree' : Free (· == lineFeed) (b :: current).reverse :=
        free_beq.mpr (by simpa [and_comm] using hcons)
      rw [feed_of_ne current bytes hb, ← ih _ hcons hfree', List.reverse_cons, List.append_assoc,
        List.singleton_append]

theorem linesFrom_cons (current : List UInt8) (fault : Option Fault) (chunk : List UInt8)
    (chunks : List (List UInt8)) :
    linesFrom current fault (chunk :: chunks) =
      (linesFrom (feed current chunk).2 fault chunks).map ((feed current chunk).1 ++ ·) := by
  rw [linesFrom]
  rcases feed current chunk with ⟨lines, current'⟩
  dsimp only
  cases linesFrom current' fault chunks <;> rfl

theorem linesFrom_fault (current : List UInt8) (f : Fault) (chunks : List (List UInt8)) :
    linesFrom current (some f) chunks = .error f := by
  induction chunks generalizing current with
  | nil => rfl
  | cons chunk chunks ih => rw [linesFrom_cons, ih, Except.map]

/-- At the end the line in progress counts unless it is empty. -/
theorem linesFrom_nil (current : List UInt8) :
    linesFrom current none [] = .ok (dropLastIf List.isEmpty [current.reverse]) := by
  cases current <;> simp [linesFrom, dropLastIf]

theorem linesFrom_none (current : List UInt8) (chunks : List (List UInt8)) :
    linesFrom current none chunks =
      .ok ((feed current chunks.flatten).1 ++
        dropLastIf List.isEmpty [(feed current chunks.flatten).2.reverse]) := by
  induction chunks generalizing current with
  | nil => rw [linesFrom_nil, List.flatten_nil, feed_nil, List.nil_append]
  | cons chunk chunks ih =>
    rw [linesFrom_cons, ih, List.flatten_cons, feed_append, Except.map, List.append_assoc]

theorem byteLines_fault (chunks : List (List UInt8)) (f : Fault) :
    byteLines ⟨chunks, some f⟩ = .error f := linesFrom_fault [] f chunks

/-- The lines are those of all bytes at once. -/
theorem byteLines_eq (chunks : List (List UInt8)) :
    byteLines ⟨chunks, none⟩ = .ok (Pieces.lines (· == lineFeed) chunks.flatten) := by
  have hpieces := pieces_feed [] chunks.flatten (by simp)
  rw [List.reverse_nil, List.nil_append] at hpieces
  rw [byteLines, linesFrom_none, Pieces.lines, hpieces, dropLastIf_append _ (by simp)]

theorem lines_fault (chunks : List (List UInt8)) (f : Fault) :
    lines ⟨chunks, some f⟩ = .error f := by
  rw [lines, byteLines_fault]
  rfl

theorem lines_eq (chunks : List (List UInt8)) :
    lines ⟨chunks, none⟩ = .ok (linesOf chunks.flatten) := by
  rw [lines, byteLines_eq]
  rfl

/-! ### Decoding -/

section

variable {b : UInt8} (hb : b.toNat < 0x80)
include hb

/-- Cutting at an ASCII character is cutting at its byte. -/
theorem pieces_decode (bytes : List UInt8) :
    pieces (· == Char.ofNat b.toNat) (Utf8.decode bytes) =
      (pieces (· == b) bytes).map Utf8.decode := by
  induction bytes using parts_induction (· == b) with
  | last bytes h =>
    have hfree : Free (· == Char.ofNat b.toNat) (Utf8.decode bytes) := by
      rw [free_beq, Utf8.mem_decode hb]
      exact free_beq.mp h
    rw [pieces_of_free h, pieces_of_free hfree, List.map_singleton]
  | first part s rest hpart hs ih =>
    obtain rfl : s = b := eq_of_beq hs
    have hfree : Free (· == Char.ofNat s.toNat) (Utf8.decode part) := by
      rw [free_beq, Utf8.mem_decode hb]
      exact free_beq.mp hpart
    rw [Utf8.decode_append_ascii hb, pieces_part _ hfree (by simp), ih, pieces_part _ hpart hs,
      List.map_cons]

theorem lines_decode (bytes : List UInt8) :
    Pieces.lines (· == Char.ofNat b.toNat) (Utf8.decode bytes) =
      (Pieces.lines (· == b) bytes).map Utf8.decode := by
  rw [Pieces.lines, pieces_decode hb, Pieces.lines]
  exact dropLastIf_map Utf8.isEmpty_decode _

/-- An ASCII character that ends the text is the last byte. -/
theorem dropLastIf_decode (bytes : List UInt8) :
    dropLastIf (· == Char.ofNat b.toNat) (Utf8.decode bytes) =
      Utf8.decode (dropLastIf (· == b) bytes) := by
  rcases bytes.eq_nil_or_concat with rfl | ⟨front, x, rfl⟩
  · rfl
  rw [List.concat_eq_append, dropLastIf_concat]
  by_cases hx : x = b
  · rw [hx, if_pos (beq_self_eq_true b), Utf8.decode_append_ascii hb]
    exact (dropLastIf_concat _ _).trans (if_pos (beq_self_eq_true _))
  · rw [if_neg (by simpa using hx), dropLastIf_eq_self]
    intro c hc
    by_contra hne
    obtain rfl : c = Char.ofNat b.toNat := by simpa using hne
    have hx' := Utf8.getLast?_of_decode hb hc
    exact hx (by simpa using hx')

end

theorem ofNat_lineFeed : Char.ofNat lineFeed.toNat = '\n' := by decide

theorem ofNat_carriageReturn : Char.ofNat carriageReturn.toNat = '\r' := by decide

/-- Decoding the lines is cutting the decoded text into lines. -/
theorem linesOf_eq_textLines (bytes : List UInt8) :
    linesOf bytes = textLines (Utf8.decode bytes) := by
  have hlines := lines_decode (b := lineFeed) (by decide) bytes
  have hline := dropLastIf_decode (b := carriageReturn) (by decide)
  rw [ofNat_lineFeed] at hlines
  rw [ofNat_carriageReturn] at hline
  rw [textLines, hlines, List.map_map, linesOf]
  refine List.map_congr_left fun line _ => ?_
  rw [lineText, ← hline, Function.comp_apply]

end Reader

theorem Import.ofReader_eq (chunks : List (List UInt8)) :
    ofReader ⟨chunks, none⟩ = .ok (ofLines (Reader.linesOf chunks.flatten)) := by
  rw [ofReader, Reader.lines_eq]

theorem Agenda.ofReader_eq (chunks : List (List UInt8)) :
    ofReader ⟨chunks, none⟩ = .ok (ofLines (Reader.linesOf chunks.flatten)) := by
  rw [ofReader, Import.ofReader_eq]
  rfl

theorem Agenda.load_of_open {disk : Disk} {path : String} {r : Reader} (h : disk path = .ok r) :
    load disk path = ofReader r := by
  rw [load, Import.load, h]
  rfl

/-- However the bytes are cut into chunks, the lines are those of their decoded
text, and so are the agenda and the numbers of the lines in the events. No byte
next to a line feed or a carriage return is read together with it. -/
theorem Reader.lines_eq_textLines_decode (chunks : List (List UInt8)) :
    (∀ text, Utf8.Reads chunks.flatten text ↔ text = Utf8.decode chunks.flatten) ∧
    lines ⟨chunks, none⟩ = .ok (textLines (Utf8.decode chunks.flatten)) ∧
    Import.ofReader ⟨chunks, none⟩ = .ok (.ofLines (textLines (Utf8.decode chunks.flatten))) ∧
    Agenda.ofReader ⟨chunks, none⟩ = .ok (.ofLines (textLines (Utf8.decode chunks.flatten))) ∧
    ∀ before after,
      Utf8.decode (before ++ lineFeed :: after) =
        Utf8.decode before ++ '\n' :: Utf8.decode after ∧
      Utf8.decode (before ++ carriageReturn :: after) =
        Utf8.decode before ++ '\r' :: Utf8.decode after := by
  rw [← linesOf_eq_textLines]
  refine ⟨fun text => Utf8.reads_iff, lines_eq chunks, Import.ofReader_eq chunks,
    Agenda.ofReader_eq chunks, fun before after => ⟨?_, ?_⟩⟩
  · rw [Utf8.decode_append_ascii (by decide), ofNat_lineFeed]
  · rw [Utf8.decode_append_ascii (by decide), ofNat_carriageReturn]

-- A character cut off by the line feed, a stray byte, and a last line without a line feed.
example : Reader.lines ⟨[[0x61, 0xE2, 0x82], [0x0A, 0xFF, 0x0D], [0x0A, 0x62, 0x0D]], none⟩ =
    .ok ["a\uFFFD", "\uFFFD", "b"] := by decide +kernel

end WeeklyAgenda

import WeeklyAgenda.Proofs.Readings
import WeeklyAgenda.Proofs.TreePatterns

/-! Lines read by way of syntax trees. The grammar leaves nodes, and a reading takes
the tree apart and checks the name of each node. The checks pass on the trees of
layouts and on no others. The grammar builds only such trees, so this reading never
stops at a check and finds what the direct one does. -/

namespace WeeklyAgenda.Line

/-! ### The grammar with nodes -/

namespace Grammar

open Pattern

def semicolonTree : Pattern Forest := silent (fun c => [c]) semicolon

def gapTree : Pattern Forest := silent id (star separator)

def wordTree : Pattern Forest := leaf .word id word

def clauseTree : Pattern Forest := branch .clause (both gapTree (many (both wordTree gapTree)))

def labelTree : Pattern Forest := leaf .label id label

def layoutTree : Pattern Forest :=
  branch .layout (both labelTree (several (both semicolonTree clauseTree)))

def finishTree : Pattern Forest := leaf .finish (fun _ => []) finish

def lineTree : Pattern Forest := both layoutTree finishTree

end Grammar

/-! ### Reading with checks -/

/-- A check that fails: a tree that is not built as the grammar builds trees. -/
inductive Mismatch where
  | noNode
  | noLabel
  | wrongRule (expected found : Rule)
  | unexpected (found parent : Rule)
  deriving DecidableEq

def Layout.reading (l : Layout) : Reading :=
  ⟨l.meanings.flatten.filterMap Meaning.ignored?, Reminder.ofClauses l.label l.meanings⟩

namespace Node

def expect (rule : Rule) (n : Node) : Except Mismatch Node :=
  if n.rule = rule then .ok n else .error (.wrongRule rule n.rule)

def readText (rule : Rule) (n : Node) : Except Mismatch (List Char) := do
  let n ← n.expect rule
  return n.text

def readClause (n : Node) : Except Mismatch (List Word) := do
  let n ← n.expect .clause
  n.children.mapM (readText .word)

/-- Reads a node behind the label. -/
def readPart (n : Node) : Except Mismatch (List Word) :=
  if n.rule = .clause then n.readClause else .error (.unexpected n.rule .layout)

def readParts : List Node → Except Mismatch Layout
  | [] => .error .noLabel
  | first :: others => do
    let label ← first.readText .label
    let clauses ← others.mapM readPart
    return ⟨label, clauses⟩

def readLayout (n : Node) : Except Mismatch Layout := do
  let n ← n.expect .layout
  readParts n.children

end Node

/-- The reading of what the grammar found in a line; only the first node counts. -/
def Reading.ofTree (line : String) : Option (Forest × List Char) → Except Mismatch Reading
  | none => .ok ⟨[], .error (.missingClause line)⟩
  | some (⟨_, []⟩, _) => .error .noNode
  | some (⟨_, n :: _⟩, _) => n.readLayout.map Layout.reading

def Reading.checked (line : String) : Except Mismatch Reading :=
  ofTree line (Grammar.lineTree.run line.toList)

/-! ### Trees of layouts -/

namespace Node

def IsClause (n : Node) (ws : List Word) : Prop :=
  n.rule = .clause ∧ List.Forall₂ (IsText .word) n.children ws

def IsLayout (n : Node) (l : Layout) : Prop :=
  n.rule = .layout ∧ ∃ first others, n.children = first :: others ∧
    first.IsText .label l.label ∧ List.Forall₂ IsClause others l.clauses

end Node

theorem bind_eq_ok {ε α β : Type} {x : Except ε α} {f : α → Except ε β} {b : β} :
    x >>= f = .ok b ↔ ∃ a, x = .ok a ∧ f a = .ok b := by
  cases x <;> simp [bind, Except.bind]

theorem mapM_eq_ok {ε α β : Type} {f : α → Except ε β} {as : List α} {bs : List β} :
    as.mapM f = .ok bs ↔ List.Forall₂ (fun a b => f a = .ok b) as bs := by
  induction as generalizing bs with
  | nil =>
    rw [List.mapM_nil, List.forall₂_nil_left_iff]
    exact ⟨fun h => by cases h; rfl, fun h => by rw [h]; rfl⟩
  | cons a as ih =>
    simp only [List.mapM_cons, bind_eq_ok, ih]
    constructor
    · rintro ⟨b, hb, bs, hbs, h⟩
      cases h
      exact .cons hb hbs
    · rintro (_ | ⟨hb, hbs⟩)
      exact ⟨_, hb, _, hbs, rfl⟩

namespace Node

theorem expect_eq_ok {rule : Rule} {n m : Node} :
    n.expect rule = .ok m ↔ n.rule = rule ∧ m = n := by
  unfold expect
  split <;> simp_all [eq_comm]

/-- A check of the rule in front of a step. -/
theorem bind_expect_eq_ok {α : Type} {rule : Rule} {n : Node} {f : Node → Except Mismatch α}
    {a : α} : n.expect rule >>= f = .ok a ↔ n.rule = rule ∧ f n = .ok a := by
  simp only [bind_eq_ok, expect_eq_ok, and_assoc]
  constructor
  · rintro ⟨_, hrule, rfl, h⟩
    exact ⟨hrule, h⟩
  · rintro ⟨hrule, h⟩
    exact ⟨n, hrule, rfl, h⟩

theorem readText_eq_ok {rule : Rule} {n : Node} {text : List Char} :
    n.readText rule = .ok text ↔ n.IsText rule text := by
  rw [readText, bind_expect_eq_ok, IsText]
  exact and_congr_right fun _ => ⟨fun h => by cases h; rfl, fun h => by rw [h]; rfl⟩

theorem readClause_eq_ok {n : Node} {ws : List Word} :
    n.readClause = .ok ws ↔ n.IsClause ws := by
  simp only [readClause, bind_expect_eq_ok, mapM_eq_ok, readText_eq_ok, IsClause]

theorem readPart_eq_ok {n : Node} {ws : List Word} : n.readPart = .ok ws ↔ n.IsClause ws := by
  unfold readPart
  split
  · exact readClause_eq_ok
  · next h => exact iff_of_false (fun hread => by cases hread) fun hn => h hn.1

theorem readParts_eq_ok {nodes : List Node} {l : Layout} :
    readParts nodes = .ok l ↔ ∃ first others, nodes = first :: others ∧
      first.IsText .label l.label ∧ List.Forall₂ IsClause others l.clauses := by
  cases nodes with
  | nil => exact iff_of_false (by simp [readParts]) (by simp)
  | cons first others =>
    simp only [readParts, bind_eq_ok, mapM_eq_ok, readText_eq_ok, readPart_eq_ok]
    constructor
    · rintro ⟨label, hlabel, clauses, hclauses, h⟩
      cases h
      exact ⟨first, others, rfl, hlabel, hclauses⟩
    · rintro ⟨_, _, h, hlabel, hclauses⟩
      cases h
      exact ⟨l.label, hlabel, l.clauses, hclauses, rfl⟩

/-- The checks pass on the trees of layouts only. -/
theorem readLayout_eq_ok {n : Node} {l : Layout} : n.readLayout = .ok l ↔ n.IsLayout l := by
  rw [readLayout, bind_expect_eq_ok, readParts_eq_ok, IsLayout]

-- A word in the place of a clause.
example : (mk .layout [] [.mk .label [] [], .mk .word [] []]).readLayout =
    .error (.unexpected .word .layout) := rfl

end Node

/-! ### The tree of a line -/

namespace Grammar

open Pattern

theorem builds_clause : Builds (Single Node.IsClause) clauseTree clause := by
  have hgap : Builds (fun nodes _ => nodes = []) gapTree (star separator) := builds_silent _ _
  have hword : Builds (Single (Node.IsText .word)) wordTree word := builds_leaf _ _ _
  exact (hgap.before (hword.followedBy hgap).many).branch .clause

theorem builds_layout : Builds (Single Node.IsLayout) layoutTree layout := by
  have hlabel : Builds (Single (Node.IsText .label)) labelTree label := builds_leaf _ _ _
  have hclauses : Builds (List.Forall₂ Node.IsClause) (several (both semicolonTree clauseTree))
      (plus (before semicolon clause)) :=
    ((builds_silent _ _).before builds_clause).several
  refine ((hlabel.both hclauses).branch .layout).map_right ?_
  rintro f x ⟨n, hf, hrule, _, others, hchildren, ⟨first, rfl, hfirst⟩, hothers⟩
  exact ⟨n, hf, hrule, first, others, hchildren, hfirst, hothers⟩

/-- The tree of a line is that of its layout, with a node for the end behind it. -/
theorem builds_line :
    Builds (fun nodes l => ∃ n last, nodes = [n, last] ∧ n.IsLayout l ∧ last.IsText .finish [])
      lineTree line := by
  refine (builds_layout.both (builds_leaf .finish _ finish)).map_right ?_
  rintro f x ⟨_, _, hnodes, ⟨n, rfl, hn⟩, last, rfl, hlast⟩
  exact ⟨n, last, hnodes, hn, hlast⟩

/-- A character that no look-ahead excludes. -/
theorem spells_other (p : Pattern Char) : Spells (fun c => [c]) (before (absent p) any) :=
  ((spells_absent p).seq (spells_char _)).map fun _ => rfl

theorem spells_clauseTree : Spells Forest.text clauseTree := by
  have hseparator : Spells (fun c => [c]) separator := (spells_char _).choice (spells_char _)
  have hgap : Spells Forest.text gapTree := hseparator.star.chars.silent
  have hword : Spells Forest.text wordTree := (spells_other _).plus.chars.leaf .word
  exact (hgap.both (hword.both hgap).many).branch .clause

/-- The text of the tree is the one that the grammar takes. -/
theorem spells_lineTree : Spells Forest.text lineTree := by
  have hlabel : Spells Forest.text labelTree := (spells_other _).star.chars.leaf .label
  have hsemicolon : Spells Forest.text semicolonTree := (spells_char _).silent
  have hlayout : Spells Forest.text layoutTree :=
    (hlabel.both (hsemicolon.both spells_clauseTree).several).branch .layout
  exact hlayout.both (spells_finish.leaf .finish)

/-! ### Both readings -/

theorem run_lineTree_of_free {text : List Char} (h : Pieces.Free isSemicolon text) :
    lineTree.run text = none := by
  rcases builds_line text with ⟨htree, -⟩ | ⟨f, l, rest, -, hline, -⟩
  · exact htree
  · exact absurd (mem_of_fits (run_line_iff.mp hline).2) (free_isSemicolon.mp h)

theorem run_lineTree_of_fits {text : List Char} {l : Layout} (h : l.Fits text) :
    ∃ n last, lineTree.run text = some (⟨text, [n, last]⟩, []) ∧ n.IsLayout l ∧
      last.IsText .finish [] := by
  have hrun := run_line_iff.mpr ⟨rfl, h⟩
  rcases builds_line text with ⟨-, hline⟩ | ⟨f, l', rest, htree, hline, n, last, hnodes, hn⟩
  · rw [hrun] at hline
    cases hline
  · rw [hrun] at hline
    cases hline
    have htext := spells_lineTree _ _ _ htree
    rw [List.append_nil] at htext
    exact ⟨n, last, by rw [htree, htext, ← hnodes], hn⟩

end Grammar

/-- No check fails, and the reading is the direct one. -/
theorem Reading.checked_eq_ofLine (line : String) : checked line = .ok (ofLine line) := by
  rcases free_or_label line.toList with h | ⟨label, rest, heq, hl⟩
  · rw [checked, Grammar.run_lineTree_of_free h, ofLine_of_free h]
    rfl
  · have hfits := heq ▸ Grammar.fits_pieces hl rest
    obtain ⟨n, last, htree, hn, -⟩ := Grammar.run_lineTree_of_fits hfits
    rw [checked, htree, ofLine_of_fits hfits]
    change n.readLayout.map Layout.reading = _
    rw [Node.readLayout_eq_ok.mpr hn]
    rfl

end WeeklyAgenda.Line

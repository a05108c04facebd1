import Mathlib.Data.List.Forall2
import WeeklyAgenda.Proofs.Matching

/-! Patterns that leave a tree. They are patterns whose values are nodes, each with
the text that its rule took. One of them builds a tree for a pattern without nodes if
both match the same texts and the nodes show its value; and it spells the text that it
takes. Both are kept when patterns are joined or repeated. -/

namespace WeeklyAgenda.Line

/-- The rules that leave a node. -/
inductive Rule where
  | layout | label | clause | word | finish
  deriving DecidableEq

/-- A rule with the text that it took and the nodes of the rules within. -/
inductive Node where
  | mk (rule : Rule) (text : List Char) (children : List Node)

namespace Node

def rule : Node → Rule
  | mk rule _ _ => rule

def text : Node → List Char
  | mk _ text _ => text

def children : Node → List Node
  | mk _ _ children => children

def IsText (rule : Rule) (n : Node) (text : List Char) : Prop := n.rule = rule ∧ n.text = text

end Node

/-- The text that a pattern took and the nodes that it left. -/
structure Forest where
  text : List Char
  nodes : List Node

namespace Forest

def append (f g : Forest) : Forest := ⟨f.text ++ g.text, f.nodes ++ g.nodes⟩

def flatten (fs : List Forest) : Forest := ⟨fs.flatMap text, fs.flatMap nodes⟩

end Forest

namespace Pattern

variable {α β γ δ : Type}

/-- Leaves no node. -/
def silent (spell : α → List Char) (p : Pattern α) : Pattern Forest :=
  map (fun a => ⟨spell a, []⟩) p

def leaf (rule : Rule) (spell : α → List Char) (p : Pattern α) : Pattern Forest :=
  map (fun a => ⟨spell a, [.mk rule (spell a) []]⟩) p

def branch (rule : Rule) (p : Pattern Forest) : Pattern Forest :=
  map (fun f => ⟨f.text, [.mk rule f.text f.nodes]⟩) p

def both (p q : Pattern Forest) : Pattern Forest := map (fun (f, g) => f.append g) (seq p q)

def many (p : Pattern Forest) : Pattern Forest := map Forest.flatten (star p)

def several (p : Pattern Forest) : Pattern Forest := map Forest.flatten (plus p)

/-! ### Patterns that agree -/

/-- Both patterns match the same texts, with values that are related. -/
def Agree (R : α → β → Prop) (p : Pattern α) (q : Pattern β) : Prop :=
  ∀ text, p.run text = none ∧ q.run text = none ∨
    ∃ a b rest, p.run text = some (a, rest) ∧ q.run text = some (b, rest) ∧ R a b

theorem Agree.refl (p : Pattern α) : Agree Eq p p := by
  intro text
  cases h : p.run text with
  | none => exact .inl ⟨rfl, rfl⟩
  | some x => exact .inr ⟨x.1, x.1, x.2, rfl, rfl, rfl⟩

section

variable {R : α → β → Prop} {p : Pattern α} {q : Pattern β}

theorem Agree.map_left {S : γ → β → Prop} {f : α → γ} (h : Agree R p q)
    (hf : ∀ {a b}, R a b → S (f a) b) : Agree S (map f p) q := by
  intro text
  rw [run_map]
  rcases h text with ⟨hp, hq⟩ | ⟨a, b, rest, hp, hq, hab⟩
  · exact .inl ⟨by rw [hp]; rfl, hq⟩
  · exact .inr ⟨f a, b, rest, by rw [hp]; rfl, hq, hf hab⟩

theorem Agree.map_right {S : α → γ → Prop} {f : β → γ} (h : Agree R p q)
    (hf : ∀ {a b}, R a b → S a (f b)) : Agree S p (map f q) := by
  intro text
  rw [run_map]
  rcases h text with ⟨hp, hq⟩ | ⟨a, b, rest, hp, hq, hab⟩
  · exact .inl ⟨hp, by rw [hq]; rfl⟩
  · exact .inr ⟨a, f b, rest, hp, by rw [hq]; rfl, hf hab⟩

theorem Agree.seq {S : γ → δ → Prop} {p' : Pattern γ} {q' : Pattern δ} (h : Agree R p q)
    (h' : Agree S p' q') :
    Agree (fun x y => R x.1 y.1 ∧ S x.2 y.2) (p.seq p') (q.seq q') := by
  intro text
  simp only [run_seq]
  rcases h text with ⟨hp, hq⟩ | ⟨a, b, mid, hp, hq, hab⟩
  · exact .inl ⟨by rw [hp]; rfl, by rw [hq]; rfl⟩
  rw [hp, hq, Option.bind_some, Option.bind_some]
  rcases h' mid with ⟨hp', hq'⟩ | ⟨c, d, rest, hp', hq', hcd⟩
  · exact .inl ⟨by rw [hp']; rfl, by rw [hq']; rfl⟩
  · exact .inr ⟨(a, c), (b, d), rest, by rw [hp']; rfl, by rw [hq']; rfl, hab, hcd⟩

theorem Agree.repeated (h : Agree R p q) (bound text : List Char) :
    ∃ as bs rest, Pattern.repeated p.run bound text = (as, rest) ∧
      Pattern.repeated q.run bound text = (bs, rest) ∧ List.Forall₂ R as bs := by
  induction bound generalizing text with
  | nil => exact ⟨[], [], text, rfl, rfl, .nil⟩
  | cons c bound ih =>
    simp only [Pattern.repeated]
    rcases h text with ⟨hp, hq⟩ | ⟨a, b, mid, hp, hq, hab⟩
    · rw [hp, hq]
      exact ⟨[], [], text, rfl, rfl, .nil⟩
    · obtain ⟨as, bs, rest, hps, hqs, hall⟩ := ih mid
      rw [hp, hq]
      exact ⟨a :: as, b :: bs, rest, by simp only [hps], by simp only [hqs], .cons hab hall⟩

theorem Agree.star (h : Agree R p q) : Agree (List.Forall₂ R) p.star q.star := by
  intro text
  obtain ⟨as, bs, rest, hp, hq, hall⟩ := h.repeated text text
  exact .inr ⟨as, bs, rest, congrArg some hp, congrArg some hq, hall⟩

theorem Agree.plus (h : Agree R p q) : Agree (List.Forall₂ R) p.plus q.plus := by
  have hcons : Agree (fun as y => List.Forall₂ R as (y.1 :: y.2)) p.plus (q.seq q.star) :=
    (h.seq h.star).map_left fun h => .cons h.1 h.2
  exact hcons.map_right id

end

/-! ### Patterns with nodes -/

/-- The nodes of a match show the value of the pattern without nodes. -/
def Builds (P : List Node → α → Prop) (t : Pattern Forest) (p : Pattern α) : Prop :=
  Agree (fun f a => P f.nodes a) t p

/-- A single node. -/
def Single (P : Node → α → Prop) (nodes : List Node) (a : α) : Prop := ∃ n, nodes = [n] ∧ P n a

variable {P : Node → α → Prop} {t : Pattern Forest} {p : Pattern α}

theorem builds_silent (spell : α → List Char) (p : Pattern α) :
    Builds (fun nodes _ => nodes = []) (silent spell p) p :=
  (Agree.refl p).map_left fun _ => rfl

theorem builds_leaf (rule : Rule) (spell : α → List Char) (p : Pattern α) :
    Builds (Single fun n a => n.IsText rule (spell a)) (leaf rule spell p) p :=
  (Agree.refl p).map_left fun h => ⟨_, rfl, rfl, congrArg spell h⟩

theorem Builds.branch {P : List Node → α → Prop} (h : Builds P t p) (rule : Rule) :
    Builds (Single fun n a => n.rule = rule ∧ P n.children a) (t.branch rule) p :=
  h.map_left fun h => ⟨_, rfl, rfl, h⟩

theorem Builds.both {P : List Node → α → Prop} {Q : List Node → β → Prop} {u : Pattern Forest}
    {q : Pattern β} (h : Builds P t p) (h' : Builds Q u q) :
    Builds (fun nodes x => ∃ left right, nodes = left ++ right ∧ P left x.1 ∧ Q right x.2)
      (t.both u) (p.seq q) :=
  (h.seq h').map_left fun h => ⟨_, _, rfl, h⟩

theorem Builds.before {P : List Node → β → Prop} {u : Pattern Forest} {q : Pattern β}
    (h : Builds (fun nodes _ => nodes = []) t p) (h' : Builds P u q) :
    Builds P (t.both u) (p.before q) :=
  (h.both h').map_right fun ⟨left, right, hnodes, hleft, hright⟩ => by
    rwa [hnodes, hleft]

theorem Builds.followedBy {P : List Node → α → Prop} {u : Pattern Forest} {q : Pattern β}
    (h : Builds P t p) (h' : Builds (fun nodes _ => nodes = []) u q) :
    Builds P (t.both u) (p.followedBy q) :=
  (h.both h').map_right fun ⟨left, right, hnodes, hleft, hright⟩ => by
    rwa [hnodes, hright, List.append_nil]

/-- Each match of a repetition leaves one node. -/
theorem forall₂_flatten {fs : List Forest} {as : List α}
    (h : List.Forall₂ (fun f a => Single P f.nodes a) fs as) :
    List.Forall₂ P (Forest.flatten fs).nodes as := by
  induction h with
  | nil => exact .nil
  | @cons f a fs as hf _ ih =>
    obtain ⟨n, hnodes, hn⟩ := hf
    change List.Forall₂ P (f.nodes ++ (Forest.flatten fs).nodes) (a :: as)
    rw [hnodes]
    exact .cons hn ih

theorem Builds.many (h : Builds (Single P) t p) : Builds (List.Forall₂ P) t.many p.star :=
  (Agree.star h).map_left forall₂_flatten

theorem Builds.several (h : Builds (Single P) t p) :
    Builds (List.Forall₂ P) t.several p.plus :=
  (Agree.plus h).map_left forall₂_flatten

/-! ### The text of a tree -/

variable {spell : α → List Char}

/-- A match takes the text that its value spells. -/
def Spells (spell : α → List Char) (p : Pattern α) : Prop :=
  ∀ text a rest, p.run text = some (a, rest) → text = spell a ++ rest

theorem spells_char (accepts : Char → Bool) : Spells (fun c => [c]) (char accepts) :=
  fun _ _ _ h => run_char_eq_some h

theorem spells_finish : Spells (fun _ => []) finish := by
  intro text a rest h
  cases text with
  | nil => cases h; rfl
  | cons c text => cases h

theorem spells_absent (p : Pattern α) : Spells (fun _ => []) (absent p) := by
  intro text a rest h
  simp only [run] at h
  split at h
  · cases h
    rfl
  · cases h

theorem Spells.choice {q : Pattern α} (h : Spells spell p) (h' : Spells spell q) :
    Spells spell (p.choice q) :=
  fun text a rest hrun => (run_choice_eq_some hrun).elim (h text a rest) (h' text a rest)

theorem Spells.seq {spell' : β → List Char} {q : Pattern β} (h : Spells spell p)
    (h' : Spells spell' q) : Spells (fun x => spell x.1 ++ spell' x.2) (p.seq q) := by
  intro text x rest hrun
  obtain ⟨mid, h₁, h₂⟩ := run_seq_eq_some hrun
  rw [h _ _ _ h₁, h' _ _ _ h₂, List.append_assoc]

theorem Spells.map {spell' : β → List Char} {f : α → β} (h : Spells spell p)
    (hf : ∀ a, spell' (f a) = spell a) : Spells spell' (p.map f) := by
  intro text b rest hrun
  rw [run_map] at hrun
  obtain ⟨⟨a, mid⟩, hp, heq⟩ := Option.map_eq_some_iff.mp hrun
  cases heq
  rw [hf, h _ _ _ hp]

theorem Spells.repeated (h : Spells spell p) (bound text : List Char) :
    text = (Pattern.repeated p.run bound text).1.flatMap spell ++
      (Pattern.repeated p.run bound text).2 := by
  induction bound generalizing text with
  | nil => rfl
  | cons c bound ih =>
    simp only [Pattern.repeated]
    split
    · rfl
    · next a rest hrun =>
      rw [List.flatMap_cons, List.append_assoc, ← ih rest]
      exact h _ _ _ hrun

theorem Spells.star (h : Spells spell p) : Spells (List.flatMap spell) p.star := by
  intro text as rest hrun
  have hall := h.repeated text text
  rwa [Option.some.inj hrun] at hall

theorem Spells.plus (h : Spells spell p) : Spells (List.flatMap spell) p.plus :=
  (h.seq h.star).map fun _ => List.flatMap_cons

/-- Characters spell themselves. -/
theorem Spells.chars {p : Pattern (List Char)} (h : Spells (List.flatMap fun c => [c]) p) :
    Spells id p := by
  intro text a rest hrun
  rw [h _ _ _ hrun, List.flatMap_singleton', id]

variable {u : Pattern Forest}

theorem Spells.silent (h : Spells spell p) : Spells Forest.text (p.silent spell) :=
  h.map fun _ => rfl

theorem Spells.leaf (h : Spells spell p) (rule : Rule) :
    Spells Forest.text (p.leaf rule spell) := h.map fun _ => rfl

theorem Spells.branch (h : Spells Forest.text t) (rule : Rule) :
    Spells Forest.text (t.branch rule) := h.map fun _ => rfl

theorem Spells.both (h : Spells Forest.text t) (h' : Spells Forest.text u) :
    Spells Forest.text (t.both u) := (h.seq h').map fun _ => rfl

theorem Spells.many (h : Spells Forest.text t) : Spells Forest.text t.many :=
  h.star.map fun _ => rfl

theorem Spells.several (h : Spells Forest.text t) : Spells Forest.text t.several :=
  h.plus.map fun _ => rfl

end Pattern

end WeeklyAgenda.Line

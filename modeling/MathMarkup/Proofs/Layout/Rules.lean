import Mathlib.Data.List.Forall2
import MathMarkup.Proofs.Rendering

/-!
# Laying out by rules

With the standard layouts a node can only fail to have markup because a pair of arrows in it
has an unknown name.  Otherwise the markup of a node is put together from the markup of the
nodes inside, by one rule for each kind of node.  A relation between nodes and markup that is
closed under these rules therefore holds between every node and its markup.

The rules know three cases that are not seen in the tree of nodes: a text without anything but
characters becomes one piece of text, labels without content are left out, and a phantom looks
through the group that is its body.

## Main definitions

* `Layout.Labels` — a label and what is made of it.
* `Layout.Rules` — the relations that are closed under the rules.

## Main results

* `Layout.Rules.toMarkup`, `Layout.Rules.toMarkupList` — such a relation holds between nodes
  and their markup.
* `Layout.Rules.formulaMarkup` — and between the nodes of a formula and the trees in its row.
-/

namespace MathMarkup

namespace Layout

/-- A label and the markup that is put at an arrow for it, if there is any. -/
inductive Labels (Q : Node → Markup → Prop) : Option Node → Option Markup → Prop where
  /-- There is no label. -/
  | missing : Labels Q none none
  /-- A label without content is left out. -/
  | hidden {n : Node} (hn : n.hasContent = false) : Labels Q (some n) none
  /-- Any other label is laid out. -/
  | shown {n : Node} {m : Markup} (hm : Q n m) : Labels Q (some n) (some m)

/-- The relations between nodes and markup, at each level, that are closed under the rules of
the standard layouts.  What is to be shown of all markup is such a relation, and is shown rule
by rule. -/
structure Rules (Q : Nat → Node → Markup → Prop) : Prop where
  /-- Letters are identifiers. -/
  letter : ∀ {level s t}, Q level (.letter s t) (.leaf .mi t)
  /-- Symbols depend on their mode. -/
  symbol : ∀ {level s t}, Q level (.symbol s t) (Layout.symbol s.mode t)
  /-- A group is a row. -/
  group : ∀ {level s body ms}, List.Forall₂ (Q level) body ms → Q level (.group s body) (.row ms)
  /-- A fraction has two parts. -/
  fraction : ∀ {level s a b upper lower}, Q level a upper → Q level b lower →
    Q level (.fraction s a b) (.node .mfrac [upper, lower])
  /-- A phantom hides the elements of its body. -/
  phantom : ∀ {level s a ms}, List.Forall₂ (Q level) a.elements ms →
    Q level (.phantom s a) (Layout.phantom ms)
  /-- An overlap shows its body. -/
  lap : ∀ {level s side a inner}, Q level a inner →
    Q level (.lap s side a) (Layout.lap side a.startsWithFraction inner)
  /-- A text of characters is one piece of text. -/
  plain : ∀ {level s body t}, Node.plainTextList? body = some t →
    Q level (.text s body) (.leaf .mtext t)
  /-- Any other text is a row. -/
  text : ∀ {level s body ms}, List.Forall₂ (Q level) body ms → Q level (.text s body) (.row ms)
  /-- An arrow has its labels. -/
  arrow : ∀ {level s name body below top bottom},
    Labels (Q (labelLevel level)) body top → Labels (Q (labelLevel level)) below bottom →
    Q level (.arrow s name body below) (Layout.arrow (labelled name level top bottom))
  /-- The two arrows of a pair have labels of their own. -/
  arrowPair : ∀ {level s name upper lower body below upperBelow lowerBody}
    {top bottom lowerTop lowerBottom}, arrowPair? name = some (upper, lower) →
    Labels (Q (labelLevel level)) body top → Labels (Q (labelLevel level)) upperBelow bottom →
    Labels (Q (labelLevel level)) lowerBody lowerTop →
    Labels (Q (labelLevel level)) below lowerBottom →
    Q level (.arrowPair s name body below upperBelow lowerBody)
      (Layout.arrowPair name (labelled upper level top bottom)
        (labelled lower level lowerTop lowerBottom))

open Node

/-- Where two steps succeed one after the other, each of them succeeds. -/
theorem exists_of_bind {α β : Type} {first : Except CompileError α}
    {next : α → Except CompileError β} {result : β} (h : first >>= next = .ok result) :
    ∃ a, first = .ok a ∧ next a = .ok result := by
  cases first with
  | ok a => exact ⟨a, rfl, h⟩
  | error e => cases h

/-- With the standard layouts the check of a node is passed and can be left out. -/
theorem checkLayout_bind (n : Node) {α : Type} (x : Except CompileError α) :
    (checkLayout .standard n >>= fun _ => x) = x := by
  rw [checkLayout_standard]
  rfl

variable {Q : Nat → Node → Markup → Prop}

mutual

/-- **A relation that is closed under the rules holds between every node and its markup.** -/
theorem Rules.toMarkup (hQ : Rules Q) : ∀ {n : Node} {level : Nat} {m : Markup},
    Node.toMarkup .standard level n = .ok m → Q level n m
  | .letter s t, level, m, h => by
    rw [Node.toMarkup, checkLayout_bind] at h
    cases h
    exact hQ.letter
  | .symbol s t, level, m, h => by
    rw [Node.toMarkup, checkLayout_bind] at h
    cases h
    exact hQ.symbol
  | .group s body, level, m, h => by
    rw [Node.toMarkup, checkLayout_bind] at h
    obtain ⟨ms, hms, h⟩ := exists_of_bind h
    cases h
    exact hQ.group (hQ.toMarkupList hms)
  | .fraction s a b, level, m, h => by
    rw [Node.toMarkup, checkLayout_bind] at h
    obtain ⟨upper, hupper, h⟩ := exists_of_bind h
    obtain ⟨lower, hlower, h⟩ := exists_of_bind h
    cases h
    exact hQ.fraction (hQ.toMarkup hupper) (hQ.toMarkup hlower)
  | .phantom s a, level, m, h => by
    rw [Node.toMarkup_phantom, checkLayout_bind] at h
    obtain ⟨ms, hms, h⟩ := exists_of_bind h
    cases h
    apply hQ.phantom
    -- the elements of the body are those of a group, or the body alone
    cases a with
    | group t body => exact hQ.toMarkupList hms
    | _ =>
      obtain ⟨inner, hinner, h⟩ := exists_of_bind hms
      cases h
      exact .cons (hQ.toMarkup hinner) .nil
  | .lap s side a, level, m, h => by
    rw [Node.toMarkup, checkLayout_bind] at h
    obtain ⟨inner, hinner, h⟩ := exists_of_bind h
    cases h
    exact hQ.lap (hQ.toMarkup hinner)
  | .text s body, level, m, h => by
    rw [Node.toMarkup, checkLayout_bind] at h
    -- plain text is one leaf, and what has anything else in it is a row
    split at h
    · rename_i t hplain
      cases h
      exact hQ.plain hplain
    · obtain ⟨ms, hms, h⟩ := exists_of_bind h
      cases h
      exact hQ.text (hQ.toMarkupList hms)
  | .arrow s name body below, level, m, h => by
    rw [Node.toMarkup, checkLayout_bind] at h
    obtain ⟨top, htop, h⟩ := exists_of_bind h
    obtain ⟨bottom, hbottom, h⟩ := exists_of_bind h
    cases h
    exact hQ.arrow (hQ.labelMarkup htop) (hQ.labelMarkup hbottom)
  | .arrowPair s name body below upperBelow lowerBody, level, m, h => by
    rw [Node.toMarkup, checkLayout_bind] at h
    split at h
    · cases h
    · rename_i upper lower hpair
      obtain ⟨top, htop, h⟩ := exists_of_bind h
      obtain ⟨bottom, hbottom, h⟩ := exists_of_bind h
      obtain ⟨lowerTop, hlowerTop, h⟩ := exists_of_bind h
      obtain ⟨lowerBottom, hlowerBottom, h⟩ := exists_of_bind h
      cases h
      exact hQ.arrowPair hpair (hQ.labelMarkup htop) (hQ.labelMarkup hbottom)
        (hQ.labelMarkup hlowerTop) (hQ.labelMarkup hlowerBottom)

/-- It holds between nodes and their markup one by one. -/
theorem Rules.toMarkupList (hQ : Rules Q) : ∀ {ns : List Node} {level : Nat} {ms : List Markup},
    Node.toMarkupList .standard level ns = .ok ms → List.Forall₂ (Q level) ns ms
  | [], level, ms, h => by
    cases h
    exact .nil
  | n :: ns, level, ms, h => by
    rw [Node.toMarkupList] at h
    obtain ⟨m, hm, h⟩ := exists_of_bind h
    obtain ⟨rest, hrest, h⟩ := exists_of_bind h
    cases h
    exact .cons (hQ.toMarkup hm) (hQ.toMarkupList hrest)

/-- It holds between a label and its markup, unless the label is left out. -/
theorem Rules.labelMarkup (hQ : Rules Q) : ∀ {n : Option Node} {level : Nat} {m : Option Markup},
    Node.labelMarkup .standard level n = .ok m → Labels (Q level) n m
  | none, level, m, h => by
    rw [Node.labelMarkup] at h
    cases h
    exact .missing
  | some n, level, m, h => by
    rw [Node.labelMarkup] at h
    -- a label with content is laid out, and one without is left out
    split at h
    · obtain ⟨inner, hinner, h⟩ := exists_of_bind h
      cases h
      exact .shown (hQ.toMarkup hinner)
    · rename_i hhidden
      cases h
      exact .hidden (by simpa using hhidden)

end

/-- The character of an arrow is an operator, whatever attributes are set on it. -/
theorem exists_shaft_eq (name : String) :
    ∃ attributes, shaft name = .element .mo attributes [.text (glyph name)] :=
  ⟨_, rfl⟩

/-- It holds between the nodes of a formula and the trees that the formula is put together
from. -/
theorem Rules.formulaMarkup (hQ : Rules Q) {o : Options} {source : String} {nodes : List Node}
    {m : Markup} (h : Registry.standard.formulaMarkup o source nodes = .ok m) :
    ∃ ms, List.Forall₂ (Q (if o.displayMode then displayLevel else textLevel)) nodes ms ∧
      m = formula o.displayMode o.xml
        (if o.annotate then annotated source (body ms) else body ms) := by
  rw [Registry.formulaMarkup] at h
  obtain ⟨ms, hms, h⟩ := exists_of_bind h
  cases h
  exact ⟨ms, hQ.toMarkupList hms, rfl⟩

end Layout

end MathMarkup

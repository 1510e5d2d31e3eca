import MathMarkup.Proofs.Layout.Rules

/-!
# Markup keeps the characters

The characters of a formula are those of its nodes: the characters that were read, and those
that arrows are drawn with.  Laying out keeps all of them, each once and in order.

The order at an arrow is that of the markup: the arrow itself, the label below, the label on
top.  A pair of arrows has the upper arrow first, with one exception, where the lower arrow is
drawn first.

## Main definitions

* `Node.contents` — the characters of a node.

## Main results

* `Node.eq_contentsList_of_plainText` — plain text has the characters of its nodes.
* `Node.contents_of_hasContent` — what counts as empty has no characters.
* `Layout.rules_toText` — the standard layouts keep characters.
* `Layout.toText_of_layout` — **the text in the markup of nodes is the contents of the nodes**,
  with the source behind it if it is attached as a note.
-/

namespace MathMarkup

namespace Node

/-! ### The characters of nodes -/

mutual

/-- The characters of a node, in the order in which its markup has them: those that were read, and
those that arrows are drawn with. -/
def contents : Node → String
  | letter _ t | symbol _ t => t
  | group _ body | text _ body => contentsList body
  | fraction _ a b => contents a ++ contents b
  | phantom _ a | lap _ _ a => contents a
  | arrow _ name body below => glyph name ++ contentsOption below ++ contentsOption body
  | arrowPair _ name body below upperBelow lowerBody =>
      match arrowPair? name with
      | none => ""
      | some (upper, lower) =>
          let top := glyph upper ++ contentsOption upperBelow ++ contentsOption body
          let bottom := glyph lower ++ contentsOption below ++ contentsOption lowerBody
          -- here the lower arrow is the long one and is drawn first
          if name = "\\equilibriumLeft" then bottom ++ top else top ++ bottom

/-- The characters of some nodes, one after the other. -/
def contentsList : List Node → String
  | [] => ""
  | n :: ns => contents n ++ contentsList ns

/-- The characters of a node that may be missing. -/
def contentsOption : Option Node → String
  | none => ""
  | some n => contents n

end

theorem contentsList_eq_join (ns : List Node) :
    contentsList ns = String.join (ns.map contents) := by
  induction ns with
  | nil =>
    rw [contentsList]
    rfl
  | cons n ns ih => rw [contentsList, ih, List.map_cons, String.join_cons]

theorem contentsList_elements (n : Node) : contentsList n.elements = n.contents := by
  cases n with
  | group s body => rw [elements, contents]
  | _ => simp [elements, contentsList]

mutual

/-- Plain text has the characters of its node. -/
theorem eq_contents_of_plainText : ∀ {n : Node} {t : String}, plainText? n = some t →
    t = contents n
  | .group s body, t, h => by
    rw [plainText?] at h
    rw [contents]
    exact eq_contentsList_of_plainText h
  | .letter s t, _, h | .symbol s t, _, h => by
    cases h
    rw [contents]

/-- Plain text has the characters of its nodes. -/
theorem eq_contentsList_of_plainText : ∀ {ns : List Node} {t : String},
    plainTextList? ns = some t → t = contentsList ns
  | [], t, h => by
    cases h
    rw [contentsList]
  | n :: ns, t, h => by
    rw [plainTextList?] at h
    obtain ⟨first, hfirst, h⟩ := Option.bind_eq_some_iff.mp h
    obtain ⟨rest, hrest, h⟩ := Option.bind_eq_some_iff.mp h
    cases h
    rw [contentsList, ← eq_contents_of_plainText hfirst, ← eq_contentsList_of_plainText hrest]

end

/-- What takes up no room has no characters, so nothing is lost if a label is left out for it. -/
theorem contents_of_hasContent : ∀ {n : Node}, n.hasContent = false → contents n = ""
  | .group s [], _ => by
    rw [contents, contentsList]
  | .phantom s a, h => by
    rw [hasContent] at h
    rw [contents]
    exact contents_of_hasContent h

end Node

/-! ### The text in markup -/

namespace Markup

@[simp] theorem toText_element (tag : Tag) (attributes : Attributes) (children : List Markup) :
    (element tag attributes children).toText = toTextList children := by
  rw [toText]

@[simp] theorem toText_node (tag : Tag) (children : List Markup) :
    (node tag children).toText = toTextList children :=
  toText_element tag [] children

@[simp] theorem toText_text (s : String) : (text s).toText = s := by
  rw [toText]

@[simp] theorem toTextList_nil : toTextList [] = "" := by
  rw [toTextList]

@[simp] theorem toTextList_cons (m : Markup) (ms : List Markup) :
    toTextList (m :: ms) = m.toText ++ toTextList ms := by
  rw [toTextList]

@[simp] theorem toText_leaf (tag : Tag) (s : String) : (leaf tag s).toText = s := by
  simp [leaf]

/-- A row of one tree is that tree, which has the same text. -/
@[simp] theorem toText_row (ms : List Markup) : (row ms).toText = toTextList ms := by
  unfold row
  split <;> simp

end Markup

namespace Layout

open Markup Node

@[simp] theorem toText_symbol (mode : Mode) (t : String) : (symbol mode t).toText = t :=
  toText_leaf _ t

@[simp] theorem toText_phantom (ms : List Markup) : (phantom ms).toText = toTextList ms := by
  simp [phantom]

@[simp] theorem toText_lap (side : Side) (fractionFirst : Bool) (m : Markup) :
    (lap side fractionFirst m).toText = m.toText := by
  simp [lap]

@[simp] theorem toText_shaft (name : String) : (shaft name).toText = glyph name := by
  obtain ⟨attributes, hshaft⟩ := exists_shaft_eq name
  simp [hshaft]

/-- The text of a label, if there is one. -/
def labelText : Option Markup → String
  | none => ""
  | some m => m.toText

@[simp] theorem toText_label (length : ArrowLength) (level : Nat) (inner : Option Markup) :
    (label length level inner).toText = labelText inner := by
  cases inner <;> simp [label, labelText]

/-- An arrow stands in front of its labels, and the label below in front of the one above. -/
@[simp] theorem toText_labelled (name : String) (level : Nat) (above below : Option Markup) :
    (labelled name level above below).toText =
      glyph name ++ labelText below ++ labelText above := by
  simp [labelled, String.append_assoc]

@[simp] theorem toText_arrow (m : Markup) : (arrow m).toText = m.toText := by
  simp [arrow]

/-- The upper arrow of a pair stands in front of the lower one, with one exception. -/
@[simp] theorem toText_arrowPair (name : String) (upper lower : Markup) :
    (arrowPair name upper lower).toText =
      if name = "\\equilibriumLeft" then lower.toText ++ upper.toText
      else upper.toText ++ lower.toText := by
  -- whether the arrows are raised or made narrow, their text is the same
  unfold arrowPair overlaid
  split <;> simp [raised]

@[simp] theorem toText_body (ms : List Markup) : (body ms).toText = toTextList ms := by
  unfold body
  split
  · split <;> simp
  · simp

@[simp] theorem toText_annotated (source : String) (m : Markup) :
    (annotated source m).toText = m.toText ++ source := by
  simp [annotated]

@[simp] theorem toText_formula (display xml : Bool) (m : Markup) :
    (formula display xml m).toText = m.toText := by
  simp [formula]

/-! ### All layouts -/

theorem toTextList_of_forall₂ {ns : List Node} {ms : List Markup}
    (h : List.Forall₂ (fun n m => m.toText = n.contents) ns ms) :
    toTextList ms = contentsList ns := by
  induction h with
  | nil => rw [toTextList, contentsList]
  | cons hm _ ih => rw [toTextList, contentsList, hm, ih]

/-- A label that is left out has no characters. -/
theorem Labels.labelText_eq {n : Option Node} {inner : Option Markup}
    (h : Labels (fun n m => m.toText = n.contents) n inner) :
    labelText inner = contentsOption n := by
  cases h with
  | missing => rw [labelText, contentsOption]
  -- what is left out has no characters that could be lost
  | hidden hn => rw [labelText, contentsOption, contents_of_hasContent hn]
  | shown hm => rw [labelText, contentsOption, hm]

/-- The standard layouts keep the characters of what is inside, and add those of arrows.  There is
one rule for each kind of node. -/
theorem rules_toText : Rules fun _ n m => m.toText = n.contents where
  letter := by
    intro level s t
    rw [toText_leaf, contents]
  symbol := by
    intro level s t
    rw [toText_symbol, contents]
  group h := by rw [toText_row, contents, toTextList_of_forall₂ h]
  fraction hupper hlower := by simp [contents, hupper, hlower]
  phantom h := by rw [toText_phantom, contents, toTextList_of_forall₂ h, contentsList_elements]
  lap h := by rw [toText_lap, contents, h]
  plain h := by rw [toText_leaf, contents, eq_contentsList_of_plainText h]
  text h := by rw [toText_row, contents, toTextList_of_forall₂ h]
  arrow hbody hbelow := by
    rw [toText_arrow, toText_labelled, contents, hbody.labelText_eq, hbelow.labelText_eq]
  arrowPair hpair hbody hupperBelow hlowerBody hbelow := by
    simp only [toText_arrowPair, toText_labelled, contents, hpair, hbody.labelText_eq,
      hupperBelow.labelText_eq, hlowerBody.labelText_eq, hbelow.labelText_eq]

/-- **Laying out loses, repeats and reorders no characters.**  The text in the markup of a node,
at any level, is the contents of the node.  The text in the markup of a formula, for any
options, is the contents of its nodes one after the other, and behind that the source if it is
attached. -/
theorem toText_of_layout (level : Nat) (n : Node) (o : Options) (source : String)
    (nodes : List Node) :
    (∀ m, n.toMarkup .standard level = .ok m → m.toText = n.contents) ∧
    ∀ m, Registry.standard.formulaMarkup o source nodes = .ok m →
      m.toText = String.join (nodes.map contents) ++ if o.annotate then source else "" := by
  constructor
  · intro m h
    exact rules_toText.toMarkup h
  · intro m h
    obtain ⟨ms, hms, rfl⟩ := rules_toText.formulaMarkup h
    rw [toText_formula, ← contentsList_eq_join, ← toTextList_of_forall₂ hms]
    split <;> simp

/-- The pair of arrows of which the lower one is drawn first, with both labels, alone and in a
formula with a note. -/
theorem toText_of_layout_pair :
    let x : Node := .letter ⟨.math, none⟩ "x"
    let y : Node := .letter ⟨.math, none⟩ "y"
    let n : Node := .arrowPair ⟨.math, none⟩ "\\equilibriumLeft" (some x) (some y)
      (some (.phantom ⟨.math, none⟩ y)) (some (.phantom ⟨.math, none⟩ x))
    (∃ m, n.toMarkup .standard displayLevel = .ok m ∧ m.toText = "↽yx⇀yx") ∧
      ∃ m, Registry.standard.formulaMarkup { annotate := true } "z" [n, x] = .ok m ∧
        m.toText = "↽yx⇀yxxz" := by
  intro x y n
  -- the labels show up twice, at their own arrow and hidden at the other one
  have hcontents : n.contents = "↽yx⇀yx" := by decide
  obtain ⟨hnode, hformula⟩ := toText_of_layout displayLevel n { annotate := true } "z" [n, x]
  refine ⟨⟨_, rfl, (hnode _ rfl).trans hcontents⟩, ⟨_, rfl, (hformula _ rfl).trans ?_⟩⟩
  rw [List.map_cons, hcontents]
  decide

end Layout

end MathMarkup

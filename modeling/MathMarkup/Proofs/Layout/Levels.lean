import MathMarkup.Proofs.Parser.Relevance
import MathMarkup.Proofs.Rendering

/-!
# Levels and their sizes

Nodes are laid out at a level, and the level of labels is at least two.  Only labels look at
their level, for the size of the font, and there are two sizes that a label can have: one at
level two, and one below it.  Levels that lead to the same size therefore lead to the same
markup, however deep labels are nested in labels.

Formulas in running text and formulas on their own are at levels of one size.  As these modes
do not concern reading either, the trees of a text in the two modes are the same but for the
attribute that tells them apart.

## Main definitions

* `SameSize` — labels have the same size at two levels.
* `Options.withDisplay` — options with another mode.

## Main results

* `Node.toMarkup_congr`, `Node.toMarkupList_congr`, `Node.labelMarkup_congr` — at levels of one
  size the markup is the same, for every registry.
* `Registry.formulaMarkup_withDisplay` — the mode of a formula has an effect on the document
  around it only.
* `Layout.toMarkup_sameSize_and_tree_display` — **only the size matters, and so the tree of a
  text on its own is the tree in running text with an attribute set.**
-/

namespace MathMarkup

/-! ### Sizes -/

/-- Whether labels have the same size at two levels: that of level two, or a smaller one. -/
def SameSize (a b : Nat) : Prop := a ≤ 2 ∧ b ≤ 2 ∨ 3 ≤ a ∧ 3 ≤ b

instance (a b : Nat) : Decidable (SameSize a b) :=
  inferInstanceAs (Decidable (a ≤ 2 ∧ b ≤ 2 ∨ 3 ≤ a ∧ 3 ≤ b))

/-- The size is the smallest one from level three on. -/
theorem emScale_of_three_le {level : Nat} (h : 3 ≤ level) : emScale level = 0.5 := by
  obtain ⟨k, rfl⟩ := Nat.exists_eq_add_of_le' h
  rfl

/-- A label depends on its level by the size only, in which its width and its height are counted. -/
theorem Layout.label_congr {a b : Nat} (hscale : emScale a = emScale b) (length : ArrowLength)
    (inner : Option Markup) : label length a inner = label length b inner := by
  have hsize : ∀ size, labelSize size a = labelSize size b := by
    intro size
    rw [labelSize, labelSize, hscale]
  cases inner with
  | none => rw [label, label, hsize]
  | some m => rw [label, label, hsize, hsize]

section

variable {a b : Nat} (h : SameSize a b)

include h

/-- Inside labels, sizes are still the same, however deep the labels are nested. -/
theorem SameSize.labelLevel : SameSize (labelLevel a) (labelLevel b) := by
  unfold SameSize MathMarkup.labelLevel at *
  omega

theorem SameSize.emScale_labelLevel :
    emScale (MathMarkup.labelLevel a) = emScale (MathMarkup.labelLevel b) := by
  unfold MathMarkup.labelLevel
  -- labels are at level two at least, so the levels up to there are one
  rcases h with ⟨ha, hb⟩ | ⟨ha, hb⟩
  · rw [Nat.max_eq_right ha, Nat.max_eq_right hb]
  · rw [Nat.max_eq_left (Nat.le_of_succ_le ha), Nat.max_eq_left (Nat.le_of_succ_le hb),
      emScale_of_three_le ha, emScale_of_three_le hb]

theorem Layout.labelled_congr (name : String) (above below : Option Markup) :
    labelled name a above below = labelled name b above below := by
  have hlabel := Layout.label_congr h.emScale_labelLevel (.ofName name)
  rw [labelled, labelled, hlabel, hlabel]

end

/-! ### Nodes -/

namespace Node

variable {r : Registry}

mutual

/-- **At levels of one size a node has the same markup, or fails the same**, whatever the layouts
are. -/
theorem toMarkup_congr : ∀ (n : Node) {a b : Nat}, SameSize a b →
    toMarkup r a n = toMarkup r b n
  | .letter s t, a, b, h => by rw [toMarkup, toMarkup]
  | .symbol s t, a, b, h => by rw [toMarkup, toMarkup]
  | .group s body, a, b, h => by rw [toMarkup, toMarkup, toMarkupList_congr body h]
  | .fraction s numerator denominator, a, b, h => by
    rw [toMarkup, toMarkup, toMarkup_congr numerator h, toMarkup_congr denominator h]
  | .phantom s body, a, b, h => by
    -- the elements of the body are those of a group, or the body alone
    have helements : toMarkupList r a body.elements = toMarkupList r b body.elements := by
      cases body with
      | group t items => exact toMarkupList_congr items h
      | _ => simp only [elements, toMarkupList, toMarkup_congr _ h]
    rw [toMarkup_phantom, toMarkup_phantom, helements]
  | .lap s side body, a, b, h => by rw [toMarkup, toMarkup, toMarkup_congr body h]
  | .text s body, a, b, h => by rw [toMarkup, toMarkup, toMarkupList_congr body h]
  | .arrow s name body below, a, b, h => by
    rw [toMarkup, toMarkup, labelMarkup_congr body h.labelLevel,
      labelMarkup_congr below h.labelLevel]
    simp only [Layout.labelled_congr h]
  | .arrowPair s name body below upperBelow lowerBody, a, b, h => by
    rw [toMarkup, toMarkup, labelMarkup_congr body h.labelLevel,
      labelMarkup_congr below h.labelLevel, labelMarkup_congr upperBelow h.labelLevel,
      labelMarkup_congr lowerBody h.labelLevel]
    simp only [Layout.labelled_congr h]

theorem toMarkupList_congr : ∀ (ns : List Node) {a b : Nat}, SameSize a b →
    toMarkupList r a ns = toMarkupList r b ns
  | [], a, b, h => by rw [toMarkupList, toMarkupList]
  | n :: ns, a, b, h => by
    rw [toMarkupList, toMarkupList, toMarkup_congr n h, toMarkupList_congr ns h]

theorem labelMarkup_congr : ∀ (n : Option Node) {a b : Nat}, SameSize a b →
    labelMarkup r a n = labelMarkup r b n
  | none, a, b, h => by rw [labelMarkup, labelMarkup]
  | some n, a, b, h => by rw [labelMarkup, labelMarkup, toMarkup_congr n h]

end

end Node

/-! ### The two modes -/

/-- The options with another mode: a formula on its own, or in running text. -/
def Options.withDisplay (o : Options) (display : Bool) : Options :=
  { o with displayMode := display }

/-- The mode does not concern reading. -/
theorem Options.readAlike_withDisplay (o : Options) (display display' : Bool) :
    (o.withDisplay display).ReadAlike (o.withDisplay display') :=
  ⟨rfl, rfl, rfl⟩

/-- The document around a formula on its own has one more attribute. -/
theorem Layout.formula_true (xml : Bool) (inner : Markup) :
    formula true xml inner = (formula false xml inner).setAttribute "display" "block" := by
  cases xml with
  | false => rfl
  | true =>
    have hset : Attributes.set "display" "block" [("xmlns", nameSpace)] =
        [("display", "block"), ("xmlns", nameSpace)] := by
      rw [Attributes.set, if_pos (by decide)]
    exact congrArg (Markup.element .math · [inner]) hset.symm

/-- In running text that attribute is not set. -/
theorem Layout.attribute?_formula_false (xml : Bool) (inner : Markup) :
    (formula false xml inner).attribute? "display" = none := by
  cases xml <;> rfl

/-- The mode of a formula has an effect on the document around it only. -/
theorem Registry.formulaMarkup_withDisplay (r : Registry) (o : Options) (display : Bool)
    (source : String) (nodes : List Node) :
    r.formulaMarkup (o.withDisplay display) source nodes =
      (Node.toMarkupList r textLevel nodes).map fun ms =>
        Layout.formula display o.xml
          (if o.annotate then Layout.annotated source (Layout.body ms) else Layout.body ms) := by
  -- both modes are above the level of labels
  have hlevel : SameSize (if display then displayLevel else textLevel) textLevel := by
    cases display <;> decide
  have hnodes := Node.toMarkupList_congr (r := r) nodes hlevel
  unfold formulaMarkup
  change (Node.toMarkupList r (if display then displayLevel else textLevel) nodes >>= _) = _
  rw [hnodes]
  cases Node.toMarkupList r textLevel nodes <;> rfl

/-- **Only the size of labels at a level matters.**  At levels of one size every node has the
same markup, or fails the same.  So every text has the same tree on its own as in running text,
but for the attribute of the document that says so, or it fails the same. -/
theorem Layout.toMarkup_sameSize_and_tree_display :
    (∀ (n : Node) (a b : Nat), SameSize a b →
      Node.toMarkup .standard a n = Node.toMarkup .standard b n) ∧
    ∀ (o : Options) (source : String),
      (Environment.tree ⟨.standard, o.withDisplay true⟩ source).1 =
        (Environment.tree ⟨.standard, o.withDisplay false⟩ source).1.map
          (·.setAttribute "display" "block") ∧
      ∀ m, (Environment.tree ⟨.standard, o.withDisplay false⟩ source).1 = .ok m →
        (∃ attributes inner, m = .element .math attributes [inner]) ∧
          m.attribute? "display" = none := by
  refine ⟨fun n a b h => n.toMarkup_congr h, fun o source => ?_⟩
  have hparse := (o.readAlike_withDisplay false true).parse source
  unfold Environment.tree
  rw [hparse]
  -- the nodes are the same in both modes, and so are their trees
  rcases Environment.parse ⟨.standard, o.withDisplay false⟩ source with ⟨e | nodes, log⟩
  · refine ⟨rfl, fun m h => ?_⟩
    cases h
  · simp only [Registry.formulaMarkup_withDisplay]
    cases Node.toMarkupList .standard textLevel nodes with
    | error e =>
      refine ⟨rfl, fun m h => ?_⟩
      cases h
    | ok ms =>
      refine ⟨congrArg Except.ok (formula_true _ _), fun m h => ?_⟩
      cases h
      exact ⟨⟨_, _, rfl⟩, attribute?_formula_false _ _⟩

/-- An arrow in the label of an arrow, and a letter in both modes. -/
theorem Layout.toMarkup_sameSize_and_tree_display_nested :
    (∃ n : Node, n = .arrow ⟨.math, none⟩ "\\xto"
        (some (.arrow ⟨.math, none⟩ "\\xto" (some (.letter ⟨.math, none⟩ "a")) none)) none ∧
      (SameSize 0 2 ∧ Node.toMarkup .standard 0 n = Node.toMarkup .standard 2 n) ∧
      SameSize 3 5 ∧ Node.toMarkup .standard 3 n = Node.toMarkup .standard 5 n) ∧
    ∃ m, (Environment.tree ⟨.standard, Options.withDisplay {} false⟩ "a").1 = .ok m ∧
      (Environment.tree ⟨.standard, Options.withDisplay {} true⟩ "a").1 =
        .ok (m.setAttribute "display" "block") ∧
      m.attribute? "display" = none := by
  obtain ⟨hlevels, hmodes⟩ := toMarkup_sameSize_and_tree_display
  refine ⟨⟨_, rfl, ⟨by decide, hlevels _ _ _ (by decide)⟩, by decide,
    hlevels _ _ _ (by decide)⟩, ?_⟩
  let letter := Token.ofPlace "a" "a" 0 1
  have hdrain : ((Parser.ofText "a").drain
      ⟨.standard, Options.withDisplay {} false⟩).toOption = some [letter] := by
    decide +kernel
  have hread : Reads ⟨.standard, Options.withDisplay {} false⟩
      (.body .math none [letter.node .math]) [letter] [] :=
    .next (by decide) (by decide) (.character (by decide) (by decide +kernel) (by decide))
      (.finish (by simp [EndsAt]))
  obtain ⟨m, hm⟩ := Environment.exists_tree_of_parse (Environment.parse_of_drain hdrain hread)
  obtain ⟨hdisplay, hinline⟩ := hmodes {} "a"
  refine ⟨m, hm, ?_, (hinline m hm).2⟩
  rw [hdisplay, hm]
  rfl

end MathMarkup

import MathMarkup.Proofs.Layout.Rules

/-!
# Markup is valid

What an element may contain depends on its name.  The elements for characters contain one text
and nothing else; all other elements contain elements only, a fraction two of them, an arrow
with labels three, and so on.  Whatever nodes are laid out, the tree that comes out obeys these
rules everywhere.

## Main definitions

* `Markup.tag?` — the name of an element.
* `Tag.Admits` — which children an element may have, by their names.
* `Markup.Valid` — trees that obey the rules everywhere.

## Main results

* `Layout.rules_valid` — the standard layouts keep to the rules.
* `Layout.valid_of_layout` — **the markup of every node and of every formula is valid.**
-/

namespace MathMarkup

/-! ### The rules -/

/-- The name of an element; a text has none. -/
def Markup.tag? : Markup → Option Tag
  | element tag _ _ => some tag
  | text _ => none

/-- Which children an element may have, given their names.  Texts have no name, so that `none`
stands for a text. -/
def Tag.Admits : Tag → List (Option Tag) → Prop
  | mi, children | mn, children | mo, children | mtext, children | remark, children =>
      children = [none]
  | mfrac, children => children.length = 2 ∧ none ∉ children
  | munderover, children => children = [some mo, some mpadded, some mpadded]
  | semantics, children =>
      children.length = 2 ∧ none ∉ children ∧ children.getLast? = some (some remark)
  | math, children => children.length = 1 ∧ none ∉ children
  | mrow, children | mpadded, children | mphantom, children => none ∉ children

instance (tag : Tag) (children : List (Option Tag)) : Decidable (tag.Admits children) :=
  match tag with
  | .mi | .mn | .mo | .mtext | .remark => inferInstanceAs (Decidable (children = [none]))
  | .mfrac => inferInstanceAs (Decidable (children.length = 2 ∧ none ∉ children))
  | .munderover =>
      inferInstanceAs (Decidable (children = [some .mo, some .mpadded, some .mpadded]))
  | .semantics => inferInstanceAs (Decidable
      (children.length = 2 ∧ none ∉ children ∧ children.getLast? = some (some .remark)))
  | .math => inferInstanceAs (Decidable (children.length = 1 ∧ none ∉ children))
  | .mrow | .mpadded | .mphantom => inferInstanceAs (Decidable (none ∉ children))

example : ¬ Tag.Admits .munderover [some .mo, some .mrow, some .mpadded] := by decide

namespace Markup

/-- An element that has the children it may have, and so have all elements inside. -/
inductive Valid : Markup → Prop where
  /-- The children that are elements obey the rules in turn. -/
  | element {tag : Tag} {attributes : Attributes} {children : List Markup}
      (hadmits : tag.Admits (children.map tag?))
      (hchildren : ∀ m ∈ children, m.tag? ≠ none → m.Valid) :
      Valid (.element tag attributes children)

variable {m : Markup} {ms : List Markup} {tag : Tag} {attributes : Attributes}

/-- What is valid is no text. -/
theorem Valid.tag_ne_none (h : m.Valid) : m.tag? ≠ none := by
  cases h
  exact Option.some_ne_none _

theorem none_notMem_of_valid (h : ∀ m ∈ ms, m.Valid) : none ∉ ms.map tag? := by
  intro hnone
  obtain ⟨m, hm, htag⟩ := List.mem_map.mp hnone
  exact (h m hm).tag_ne_none htag

/-- An element with valid children is valid if it may have these. -/
theorem valid_element (hadmits : tag.Admits (ms.map tag?)) (h : ∀ m ∈ ms, m.Valid) :
    (element tag attributes ms).Valid :=
  .element hadmits fun m hm _ => h m hm

/-- An element for characters is valid if there is one text in it. -/
theorem valid_leaf (hadmits : tag.Admits [none]) (s : String) :
    (element tag attributes [text s]).Valid := by
  refine .element hadmits fun m hm hne => ?_
  rw [List.mem_singleton] at hm
  subst hm
  exact absurd rfl hne

theorem valid_padded (h : ∀ m ∈ ms, m.Valid) : (element .mpadded attributes ms).Valid :=
  valid_element (none_notMem_of_valid h) h

theorem valid_row (h : ∀ m ∈ ms, m.Valid) : (row ms).Valid := by
  unfold row
  -- a row of one tree is that tree, which is valid already
  split
  · exact h _ List.mem_cons_self
  · exact valid_element (none_notMem_of_valid h) h

end Markup

/-! ### Keeping to the rules -/

namespace Layout

open Markup

variable {m : Markup} {ms : List Markup}

theorem valid_symbol (mode : Mode) (t : String) : (symbol mode t).Valid := by
  apply valid_leaf
  unfold symbolTag
  split
  · rfl
  · split <;> rfl

theorem valid_fraction {upper lower : Markup} (hupper : upper.Valid) (hlower : lower.Valid) :
    (node .mfrac [upper, lower]).Valid := by
  have hboth : ∀ m ∈ [upper, lower], m.Valid := by simp [hupper, hlower]
  exact valid_element ⟨rfl, none_notMem_of_valid hboth⟩ hboth

theorem valid_phantom (h : ∀ m ∈ ms, m.Valid) : (phantom ms).Valid := by
  apply valid_padded
  rw [List.forall_mem_singleton]
  exact valid_element (none_notMem_of_valid h) h

theorem valid_shaft (name : String) : (shaft name).Valid := by
  obtain ⟨attributes, hshaft⟩ := exists_shaft_eq name
  rw [hshaft]
  exact valid_leaf (by rfl) _

/-- There is room for a label whether or not there is a label. -/
theorem valid_label {inner : Option Markup} (h : ∀ m ∈ inner, m.Valid) (length : ArrowLength)
    (level : Nat) :
    (label length level inner).Valid ∧ (label length level inner).tag? = some .mpadded := by
  cases inner with
  | none => exact ⟨valid_padded fun m hm => absurd hm List.not_mem_nil, rfl⟩
  | some m => exact ⟨valid_padded (List.forall_mem_singleton.mpr (h m rfl)), rfl⟩

theorem valid_labelled {above below : Option Markup} (habove : ∀ m ∈ above, m.Valid)
    (hbelow : ∀ m ∈ below, m.Valid) (name : String) (level : Nat) :
    (labelled name level above below).Valid := by
  obtain ⟨htop, htopTag⟩ := valid_label habove (ArrowLength.ofName name) (labelLevel level)
  obtain ⟨hbottom, hbottomTag⟩ := valid_label hbelow (ArrowLength.ofName name) (labelLevel level)
  -- the three children are the character and the places for two labels
  obtain ⟨attributes, hshaft⟩ := exists_shaft_eq name
  apply valid_element
  · rw [List.map_cons, List.map_cons, List.map_singleton, htopTag, hbottomTag, hshaft]
    rfl
  · simp [valid_shaft, htop, hbottom]

theorem valid_arrow (h : m.Valid) : (arrow m).Valid :=
  valid_padded (List.forall_mem_singleton.mpr h)

/-- The two arrows of a pair are wrapped or not, but both are there, in one order or the other. -/
theorem valid_arrowPair {upper lower : Markup} (hupper : upper.Valid) (hlower : lower.Valid)
    (name : String) : (arrowPair name upper lower).Valid := by
  -- each arrow may stand in a frame that moves it
  have hwrapped : ∀ {m : Markup} {attributes : Attributes}, m.Valid →
      (element .mpadded attributes [m]).Valid :=
    fun h => valid_padded (List.forall_mem_singleton.mpr h)
  apply valid_padded
  unfold overlaid raised
  split <;> simp [hwrapped hupper, hwrapped hlower, hlower]

theorem valid_body (h : ∀ m ∈ ms, m.Valid) : (body ms).Valid := by
  have hrow : (node .mrow ms).Valid := valid_element (none_notMem_of_valid h) h
  unfold body
  split
  · split
    · exact h _ List.mem_cons_self
    · exact hrow
  · exact hrow

theorem valid_annotated (h : m.Valid) (source : String) : (annotated source m).Valid := by
  have hremark : (element .remark [("encoding", "application/x-tex")] [text source]).Valid :=
    valid_leaf (by rfl) source
  apply valid_element
  · exact ⟨rfl, none_notMem_of_valid (by simp [h, hremark]), rfl⟩
  · simp [h, hremark]

theorem valid_formula (h : m.Valid) (display xml : Bool) : (formula display xml m).Valid := by
  have hall : ∀ m' ∈ [m], m'.Valid := List.forall_mem_singleton.mpr h
  exact valid_element ⟨rfl, none_notMem_of_valid hall⟩ hall

/-! ### All layouts -/

theorem valid_of_forall₂ {ns : List Node} (h : List.Forall₂ (fun _ m => m.Valid) ns ms) :
    ∀ m ∈ ms, m.Valid := by
  induction h with
  | nil => exact fun m hm => absurd hm List.not_mem_nil
  | cons hm _ ih => exact List.forall_mem_cons.mpr ⟨hm, ih⟩

theorem Labels.valid {n : Option Node} {inner : Option Markup}
    (h : Labels (fun _ m => m.Valid) n inner) : ∀ m ∈ inner, m.Valid := by
  intro m hm
  cases h with
  | missing | hidden => cases hm
  | shown hvalid =>
    cases hm
    exact hvalid

/-- The standard layouts make valid markup of valid markup, by one rule for each kind of node. -/
theorem rules_valid : Rules fun _ _ m => m.Valid where
  letter := valid_leaf (by rfl) _
  symbol := valid_symbol _ _
  group h := valid_row (valid_of_forall₂ h)
  fraction hupper hlower := valid_fraction hupper hlower
  phantom h := valid_phantom (valid_of_forall₂ h)
  lap h := valid_padded (List.forall_mem_singleton.mpr h)
  plain _ := valid_leaf (by rfl) _
  text h := valid_row (valid_of_forall₂ h)
  arrow hbody hbelow := valid_arrow (valid_labelled hbody.valid hbelow.valid _ _)
  arrowPair _ hbody hupperBelow hlowerBody hbelow :=
    valid_arrowPair (valid_labelled hbody.valid hupperBelow.valid _ _)
      (valid_labelled hlowerBody.valid hbelow.valid _ _) _

/-- **Markup is valid.**  Whatever node is laid out at whatever level, and whatever nodes are
made into a formula with whatever options, the elements of the tree have the children they may
have, from the root down.  The root of a formula is the element for formulas. -/
theorem valid_of_layout (level : Nat) (n : Node) (o : Options) (source : String)
    (nodes : List Node) :
    (∀ m, n.toMarkup .standard level = .ok m → m.Valid) ∧
    ∀ m, Registry.standard.formulaMarkup o source nodes = .ok m →
      m.Valid ∧ m.tag? = some .math := by
  constructor
  · intro m h
    exact rules_valid.toMarkup h
  · intro m h
    obtain ⟨ms, hms, rfl⟩ := rules_valid.formulaMarkup h
    refine ⟨valid_formula ?_ _ _, rfl⟩
    have hbody := valid_body (valid_of_forall₂ hms)
    split
    · exact valid_annotated hbody source
    · exact hbody

/-- A pair of arrows with a label over a text with an overlap in it, alone and as a formula with
a note. -/
theorem valid_of_layout_pair :
    let n : Node := .fraction ⟨.math, none⟩
      (.arrowPair ⟨.math, none⟩ "\\equilibriumLeft" (some (.letter ⟨.math, none⟩ "x")) none none
        (some (.phantom ⟨.math, none⟩ (.letter ⟨.math, none⟩ "x"))))
      (.text ⟨.math, none⟩ [.symbol ⟨.text, none⟩ "a", .lap ⟨.text, none⟩ .left
        (.group ⟨.text, none⟩ [])])
    (∃ m, n.toMarkup .standard displayLevel = .ok m ∧ m.Valid) ∧
      ∃ m, Registry.standard.formulaMarkup { annotate := true } "x" [n, n] = .ok m ∧
        m.Valid ∧ m.tag? = some .math := by
  intro n
  obtain ⟨hnode, hformula⟩ := valid_of_layout displayLevel n { annotate := true } "x" [n, n]
  exact ⟨⟨_, rfl, hnode _ rfl⟩, ⟨_, rfl, hformula _ rfl⟩⟩

end Layout

end MathMarkup

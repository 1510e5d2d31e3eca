import MathMarkup.Layout.Basic
import MathMarkup.Proofs.Node.Erase

/-!
# Places leave no trace in markup

Markup is made of the texts and the modes of nodes.  Where the nodes stood in a document has an
effect on errors only, which say where they are.  So nodes that are the same, places apart, have
the same markup.

## Main definitions

* `CompileError.erase` — an error without its place.

## Main results

* `Node.toMarkup_erase`, `Node.toMarkupList_erase` — laying out nodes without their places gives
  the same markup, or the same error without its place.
* `Node.toMarkupList_of_erase`, `Registry.formulaMarkup_of_erase` — nodes that are the same,
  places apart, have the same markup, and so have formulas.
-/

namespace MathMarkup

/-- The error without its place, which is the only trace that the places of nodes leave. -/
def CompileError.erase (e : CompileError) : CompileError := ⟨e.reason, none⟩

/-- Two steps one after the other, with errors changed in both. -/
theorem mapError_bind {α β : Type} (f : CompileError → CompileError) (x : Except CompileError α)
    (next : α → Except CompileError β) :
    (x >>= next).mapError f = x.mapError f >>= fun a => (next a).mapError f := by
  cases x <;> rfl

theorem mapError_eq_ok_iff {α : Type} {f : CompileError → CompileError}
    {x : Except CompileError α} {a : α} : x.mapError f = .ok a ↔ x = .ok a := by
  cases x with
  | ok b => exact Iff.rfl
  | error e =>
    constructor
    · intro h
      cases h
    · intro h
      cases h

namespace Node

/-! ### What layouts look at -/

@[simp] theorem kind_erase (n : Node) : n.erase.kind = n.kind := by
  cases n <;> rfl

@[simp] theorem span_erase (n : Node) : n.erase.span = none := by
  cases n <;> rfl

@[simp] theorem hasContent_erase : ∀ n : Node, n.erase.hasContent = n.hasContent
  | .group s body => by cases body <;> rfl
  | .phantom s body => by rw [erase, hasContent, hasContent, hasContent_erase body]
  | .fraction .. | .letter .. | .symbol .. | .text .. | .lap .. | .arrow .. | .arrowPair .. => rfl

@[simp] theorem startsWithFraction_erase (n : Node) :
    n.erase.startsWithFraction = n.startsWithFraction := by
  cases n with
  | group s body =>
    cases body with
    | nil => rfl
    | cons first rest => cases first <;> rfl
  | _ => rfl

mutual

theorem plainText?_erase : ∀ n : Node, n.erase.plainText? = n.plainText?
  | .group s body => by rw [erase, plainText?, plainText?, plainTextList?_erase body]
  | .letter .. | .symbol .. => by rw [erase, plainText?, plainText?]
  | .fraction .. | .text .. | .phantom .. | .lap .. | .arrow .. | .arrowPair .. => rfl

theorem plainTextList?_erase : ∀ ns : List Node, plainTextList? (eraseList ns) = plainTextList? ns
  | [] => rfl
  | n :: ns => by
    rw [eraseList, plainTextList?, plainTextList?, plainText?_erase n, plainTextList?_erase ns]

end

/-! ### Markup -/

variable {r : Registry}

theorem checkLayout_erase (n : Node) :
    checkLayout r n.erase = (checkLayout r n).mapError CompileError.erase := by
  unfold checkLayout expectKind
  rw [kind_erase, span_erase]
  -- the error says where the node is, and without its places it is nowhere
  split
  · rfl
  · split <;> rfl

mutual

/-- A node without its places has the same markup, or the same error without its place.  One case
for each kind of node, along the layouts. -/
theorem toMarkup_erase : ∀ (n : Node) (level : Nat),
    toMarkup r level n.erase = (toMarkup r level n).mapError CompileError.erase
  | .letter s t, level => by
    rw [toMarkup, mapError_bind, ← checkLayout_erase]
    rfl
  | .symbol s t, level => by
    rw [toMarkup, mapError_bind, ← checkLayout_erase]
    rfl
  | .group s body, level => by
    rw [toMarkup, mapError_bind, ← checkLayout_erase]
    simp only [mapError_bind, ← toMarkupList_erase body level]
    rfl
  | .fraction s numerator denominator, level => by
    rw [toMarkup, mapError_bind, ← checkLayout_erase]
    simp only [mapError_bind, ← toMarkup_erase numerator level, ← toMarkup_erase denominator level]
    rfl
  | .phantom s body, level => by
    -- the elements of the body are those of a group, or the body alone
    have helements : toMarkupList r level body.erase.elements =
        (toMarkupList r level body.elements).mapError CompileError.erase := by
      cases body with
      | group t items => exact toMarkupList_erase items level
      | _ =>
        simp only [elements, toMarkupList, mapError_bind, ← toMarkup_erase _ level]
        rfl
    rw [toMarkup_phantom, mapError_bind, ← checkLayout_erase]
    simp only [mapError_bind, ← helements]
    rw [erase, toMarkup_phantom]
    rfl
  | .lap s side body, level => by
    rw [toMarkup, mapError_bind, ← checkLayout_erase]
    simp only [mapError_bind, ← toMarkup_erase body level]
    rw [erase, toMarkup, startsWithFraction_erase]
    rfl
  | .text s body, level => by
    rw [toMarkup, mapError_bind, ← checkLayout_erase, erase, toMarkup, plainTextList?_erase]
    cases plainTextList? body with
    | some t => rfl
    | none =>
      simp only [mapError_bind, ← toMarkupList_erase body level]
      rfl
  | .arrow s name body below, level => by
    rw [toMarkup, mapError_bind, ← checkLayout_erase]
    simp only [mapError_bind, ← labelMarkup_erase body (labelLevel level),
      ← labelMarkup_erase below (labelLevel level)]
    rfl
  | .arrowPair s name body below upperBelow lowerBody, level => by
    rw [toMarkup, mapError_bind, ← checkLayout_erase, erase, toMarkup]
    -- the name decides whether there is an error, and it is kept
    cases arrowPair? name with
    | none => rfl
    | some pair =>
      simp only [mapError_bind, ← labelMarkup_erase body (labelLevel level),
        ← labelMarkup_erase below (labelLevel level),
        ← labelMarkup_erase upperBelow (labelLevel level),
        ← labelMarkup_erase lowerBody (labelLevel level)]
      rfl

theorem toMarkupList_erase : ∀ (ns : List Node) (level : Nat),
    toMarkupList r level (eraseList ns) = (toMarkupList r level ns).mapError CompileError.erase
  | [], level => rfl
  | n :: ns, level => by
    simp only [toMarkupList, mapError_bind, ← toMarkup_erase n level, ← toMarkupList_erase ns level]
    rfl

theorem labelMarkup_erase : ∀ (n : Option Node) (level : Nat),
    labelMarkup r level (eraseOption n) = (labelMarkup r level n).mapError CompileError.erase
  | none, level => by
    rw [eraseOption, labelMarkup]
    rfl
  | some n, level => by
    rw [eraseOption, labelMarkup, labelMarkup, hasContent_erase]
    split
    · simp only [mapError_bind, ← toMarkup_erase n level]
      rfl
    · rfl

end

/-- Nodes that are the same, places apart, have the same markup. -/
theorem toMarkupList_of_erase {ns ns' : List Node} (h : ns.map erase = ns'.map erase)
    {level : Nat} {ms : List Markup} (hms : toMarkupList r level ns = .ok ms) :
    toMarkupList r level ns' = .ok ms := by
  have herase : eraseList ns = eraseList ns' := by
    rw [eraseList_eq_map, eraseList_eq_map, h]
  rw [← mapError_eq_ok_iff, ← toMarkupList_erase, ← herase, toMarkupList_erase, hms]
  rfl

end Node

/-- Nodes that are the same, places apart, are formulas with the same tree. -/
theorem Registry.formulaMarkup_of_erase {r : Registry} {o : Options} {source : String}
    {nodes nodes' : List Node} (h : nodes.map Node.erase = nodes'.map Node.erase) {m : Markup}
    (hm : r.formulaMarkup o source nodes = .ok m) : r.formulaMarkup o source nodes' = .ok m := by
  unfold formulaMarkup at hm ⊢
  cases hms : Node.toMarkupList r (if o.displayMode then displayLevel else textLevel) nodes with
  | error e =>
    rw [hms] at hm
    cases hm
  | ok ms =>
    rw [hms] at hm
    rw [Node.toMarkupList_of_erase h hms]
    exact hm

end MathMarkup

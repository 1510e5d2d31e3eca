import MathMarkup.Layout.Shapes
import MathMarkup.Registry.Basic

/-!
# Laying out nodes

Nodes become markup.  The registry says how: a kind without a layout fails, and a
kind that was given the layout of another one fails as well, since that layout
asks for its own kind.

## Main definitions

* `Node.hasContent` — whether a label is there to be seen.
* `Node.plainText?` — the characters of plain text.
* `Node.toMarkup`, `Node.toMarkupList`, `Node.labelMarkup` — the markup of a node,
  of several nodes, and of a label.
* `Registry.arrowMarkup` — the markup of an arrow with its labels.
* `Registry.formulaMarkup` — the markup of a whole formula.

## Main results

* `Node.toMarkup_phantom`, `Node.toMarkup_arrow` — the markup of a phantom in terms
  of the elements of its body, and of an arrow in terms of the arrow with its
  labels.
-/

namespace MathMarkup

namespace Node

/-- Whether a label takes up room.  A phantom does if what it hides does. -/
def hasContent : Node → Bool
  | group _ body => !body.isEmpty
  | phantom _ body => hasContent body
  | _ => true

/-- Whether the first node of a group is a fraction. -/
def startsWithFraction : Node → Bool
  | group _ (fraction .. :: _) => true
  | _ => false

mutual

/-- The characters of a node, if there is nothing but characters in it. -/
def plainText? : Node → Option String
  | group _ body => plainTextList? body
  | letter _ t | symbol _ t => some t
  | _ => none

/-- The characters of some nodes, if there is nothing but characters in them. -/
def plainTextList? : List Node → Option String
  | [] => some ""
  | n :: ns => do
      let first ← plainText? n
      let rest ← plainTextList? ns
      return first ++ rest

end

/-- Fails unless a node can be laid out by the rule of its own kind. -/
def checkLayout (r : Registry) (n : Node) : Except CompileError Unit :=
  match r.layouts n.kind with
  | none => .error (.located (.unknownGroup n.kind) n.span)
  | some layout => n.expectKind layout

mutual

/-- The markup of a node at a level. -/
def toMarkup (r : Registry) (level : Nat) : Node → Except CompileError Markup
  | group s body => do
      checkLayout r (group s body)
      let inner ← toMarkupList r level body
      return .row inner
  | letter s t => do
      checkLayout r (letter s t)
      return .leaf .mi t
  | symbol s t => do
      checkLayout r (symbol s t)
      return Layout.symbol s.mode t
  | fraction s numerator denominator => do
      checkLayout r (fraction s numerator denominator)
      let upper ← toMarkup r level numerator
      let lower ← toMarkup r level denominator
      return .node .mfrac [upper, lower]
  | phantom s (group t body) => do
      checkLayout r (phantom s (group t body))
      let inner ← toMarkupList r level body
      return Layout.phantom inner
  | phantom s body => do
      checkLayout r (phantom s body)
      let inner ← toMarkup r level body
      return Layout.phantom [inner]
  | lap s side body => do
      checkLayout r (lap s side body)
      let inner ← toMarkup r level body
      return Layout.lap side body.startsWithFraction inner
  | text s body => do
      checkLayout r (text s body)
      match plainTextList? body with
      | some t => return .leaf .mtext t
      | none =>
          let inner ← toMarkupList r level body
          return .row inner
  | arrow s name body below => do
      checkLayout r (arrow s name body below)
      let top ← labelMarkup r (labelLevel level) body
      let bottom ← labelMarkup r (labelLevel level) below
      return Layout.arrow (Layout.labelled name level top bottom)
  | arrowPair s name body below upperBelow lowerBody => do
      let n := arrowPair s name body below upperBelow lowerBody
      checkLayout r n
      match arrowPair? name with
      | none => .error (.located (.unknownArrowPair name) n.span)
      | some (upper, lower) =>
          let top ← labelMarkup r (labelLevel level) body
          let bottom ← labelMarkup r (labelLevel level) upperBelow
          let lowerTop ← labelMarkup r (labelLevel level) lowerBody
          let lowerBottom ← labelMarkup r (labelLevel level) below
          return Layout.arrowPair name (Layout.labelled upper level top bottom)
            (Layout.labelled lower level lowerTop lowerBottom)

/-- The markup of some nodes, from left to right. -/
def toMarkupList (r : Registry) (level : Nat) : List Node → Except CompileError (List Markup)
  | [] => return []
  | n :: ns => do
      let first ← toMarkup r level n
      let rest ← toMarkupList r level ns
      return first :: rest

/-- The markup of a label, if there is one to be seen. -/
def labelMarkup (r : Registry) (level : Nat) : Option Node → Except CompileError (Option Markup)
  | none => return none
  | some n =>
      if n.hasContent then do
        let inner ← toMarkup r level n
        return some inner
      else return none

end

end Node

namespace Registry

/-- The markup of an arrow with a label above and one below. -/
def arrowMarkup (r : Registry) (level : Nat) (name : String) (body below : Option Node) :
    Except CompileError Markup := do
  let top ← Node.labelMarkup r (labelLevel level) body
  let bottom ← Node.labelMarkup r (labelLevel level) below
  return Layout.labelled name level top bottom

end Registry

namespace Node

/-- A phantom lays out the elements of its body, whether the body is a group or
not. -/
theorem toMarkup_phantom (r : Registry) (level : Nat) (s : Site) (body : Node) :
    toMarkup r level (phantom s body) = (do
      checkLayout r (phantom s body)
      let inner ← toMarkupList r level body.elements
      return Layout.phantom inner) := by
  cases body with
  | group t items => simp only [toMarkup, elements]
  | _ => simp [toMarkup, toMarkupList, elements]

theorem toMarkup_arrow (r : Registry) (level : Nat) (s : Site) (name : String)
    (body below : Option Node) :
    toMarkup r level (arrow s name body below) = (do
      checkLayout r (arrow s name body below)
      let inner ← r.arrowMarkup level name body below
      return Layout.arrow inner) := by
  simp [toMarkup, Registry.arrowMarkup]

end Node

namespace Registry

/-- The markup of nodes as one tree. -/
def rowMarkup (r : Registry) (level : Nat) (nodes : List Node) : Except CompileError Markup := do
  let inner ← Node.toMarkupList r level nodes
  return .row inner

/-- The markup of a whole formula, given the source for a note. -/
def formulaMarkup (r : Registry) (o : Options) (source : String) (nodes : List Node) :
    Except CompileError Markup := do
  let inner ← Node.toMarkupList r (if o.displayMode then displayLevel else textLevel) nodes
  let body := Layout.body inner
  return Layout.formula o.displayMode o.xml
    (if o.annotate then Layout.annotated source body else body)

end Registry

end MathMarkup

import MathMarkup.Registry.Basic

/-!
# Arrows

Arrows take a label and, in brackets, a label below.  A pair of arrows has the
labels in common: the upper arrow carries the label on top, the lower one the
label below, and each has space for the other label.

## Main definitions

* `arrowNames`, `arrowPairNames` — the names of the commands.
* `Handler.arrow`, `Handler.arrowPair` — what they do.
* `Command.arrow`, `Command.arrowPair` — the commands.
* `arrowRegistrations` — the commands of this family under their names.
-/

namespace MathMarkup

/-- The arrows: those that grow, those of chemistry and those of diagrams. -/
def arrowNames : List String :=
  ["\\xleftarrow", "\\xrightarrow", "\\xLeftarrow", "\\xRightarrow", "\\xleftrightarrow",
    "\\xLeftrightarrow", "\\xhookleftarrow", "\\xhookrightarrow", "\\xmapsto",
    "\\xrightharpoondown", "\\xrightharpoonup", "\\xleftharpoondown", "\\xleftharpoonup",
    "\\xlongequal", "\\xtwoheadrightarrow", "\\xtwoheadleftarrow",
    "\\yields", "\\yieldsLeft", "\\mesomerism", "\\longrightharpoonup", "\\longleftharpoondown",
    "\\\\cdrightarrow", "\\\\cdleftarrow", "\\\\cdlongequal"]

/-- The pairs of arrows. -/
def arrowPairNames : List String :=
  ["\\xtofrom", "\\xleftrightharpoons", "\\xrightleftharpoons", "\\yieldsLeftRight",
    "\\equilibrium", "\\equilibriumRight", "\\equilibriumLeft"]

namespace Handler

/-- An arrow is named by its command. -/
def arrow : Handler := fun _ i =>
  (.node (.arrow i.site i.name i.required.head? i.firstOptional), [])

/-- Space as wide as a label. -/
def labelSpace (mode : Mode) (label : Node) : Node := .phantom ⟨mode, none⟩ label

/-- A pair of arrows is named by its command. -/
def arrowPair : Handler := fun _ i =>
  let body := i.required.head?
  let below := i.firstOptional
  (.node (.arrowPair i.site i.name body below (below.map (labelSpace i.mode))
    (body.map (labelSpace i.mode))), [])

end Handler

/-- The command of an arrow. -/
def Command.arrow : Command :=
  { kind := some .arrow, required := 1, optional := 1, handler := some Handler.arrow }

/-- The command of a pair of arrows. -/
def Command.arrowPair : Command :=
  { kind := some .arrowPair, required := 1, optional := 1, handler := some Handler.arrowPair }

/-- The commands for arrows, then those for pairs of arrows. -/
def arrowRegistrations {β : Type} (own : NodeKind → β) : List (Registration β) :=
  [.define { names := arrowNames, command := .arrow, layout := own .arrow },
    .define { names := arrowPairNames, command := .arrowPair, layout := own .arrowPair }]

end MathMarkup

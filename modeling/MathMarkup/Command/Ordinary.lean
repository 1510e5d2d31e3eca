import MathMarkup.Registry.Basic

/-!
# Fractions, phantoms and text

## Main definitions

* `Handler.fraction`, `Handler.phantom`, `Handler.text` — what the commands do.
* `Command.fraction`, `Command.phantom`, `Command.text` — the commands.
* `fractionRegistrations`, `phantomRegistrations`, `textRegistrations` — the
  commands under their names.
* `groupRegistrations`, `symbolRegistrations` — layouts of nodes that no command
  makes.
-/

namespace MathMarkup

namespace Handler

/-- A fraction needs both of its arguments. -/
def fraction : Handler := fun _ i =>
  match i.required with
  | numerator :: denominator :: _ => (.node (.fraction i.site numerator denominator), [])
  | _ => (.fail ⟨.missingArgument i.name, none⟩, [])

/-- A phantom needs a body. -/
def phantom : Handler := fun _ i =>
  match i.required.head? with
  | some body => (.node (.phantom i.site body), [])
  | none => (.fail ⟨.missingArgument i.name, none⟩, [])

/-- Text consists of the elements of its argument. -/
def text : Handler := fun _ i =>
  (.node (.text i.site ((i.required.head?.map Node.elements).getD [])), [])

end Handler

/-- The layout of groups, given the layouts of all kinds. -/
def groupRegistrations {β : Type} (own : NodeKind → β) : List (Registration β) :=
  [.layout .group (own .group)]

/-- The layouts of letters and other characters. -/
def symbolRegistrations {β : Type} (own : NodeKind → β) : List (Registration β) :=
  [.layout .letter (own .letter), .layout .symbol (own .symbol)]

/-- The command for fractions. -/
def Command.fraction : Command :=
  { kind := some .fraction, required := 2, handler := some Handler.fraction }

/-- The command for phantoms. -/
def Command.phantom : Command :=
  { kind := some .phantom, required := 1, inText := true, handler := some Handler.phantom }

/-- The command for text; its argument is read in text mode. -/
def Command.text : Command :=
  { kind := some .text, required := 1, argumentTypes := [.text], inText := true
    handler := some Handler.text }

/-- The command for fractions under its name. -/
def fractionRegistrations {β : Type} (own : NodeKind → β) : List (Registration β) :=
  [.define { names := ["\\frac"], command := .fraction, layout := own .fraction }]

/-- The command for phantoms under its name. -/
def phantomRegistrations {β : Type} (own : NodeKind → β) : List (Registration β) :=
  [.define { names := ["\\hphantom"], command := .phantom, layout := own .phantom }]

/-- The command for text under its name. -/
def textRegistrations {β : Type} (own : NodeKind → β) : List (Registration β) :=
  [.define { names := ["\\text"], command := .text, layout := own .text }]

end MathMarkup

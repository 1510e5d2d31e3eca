import MathMarkup.Command.Arrow
import MathMarkup.Command.Lap
import MathMarkup.Command.Ordinary

/-!
# The standard registry

The commands come in families that can be registered one by one.  The standard
registry has all of them.

## Main definitions

* `Family`, `Family.registrations` — the families.
* `Registry.addFamilyWith`, `Registry.addFamily` — register a family.
* `Registry.standard` — the registry with all families.
-/

namespace MathMarkup

/-- The families of commands and layouts. -/
inductive Family where
  /-- Groups. -/
  | groups
  /-- Single characters. -/
  | symbols
  /-- Arrows and pairs of arrows. -/
  | arrows
  /-- Overlaps. -/
  | laps
  /-- Fractions. -/
  | fractions
  /-- Phantoms. -/
  | phantoms
  /-- Text. -/
  | texts
  deriving DecidableEq, Repr, Inhabited

namespace Family

/-- What a family registers, where `own` are the layouts of the kinds. -/
def registrations {β : Type} (own : NodeKind → β) : Family → List (Registration β)
  | groups => groupRegistrations own
  | symbols => symbolRegistrations own
  | arrows => arrowRegistrations own
  | laps => lapRegistrations own
  | fractions => fractionRegistrations own
  | phantoms => phantomRegistrations own
  | texts => textRegistrations own

/-- All families, in the order in which they are registered. -/
def all : List Family := [groups, symbols, arrows, laps, fractions, phantoms, texts]

end Family

namespace Registry

/-- Registers a family, where `own` are the layouts of the kinds. -/
def addFamilyWith {β : Type} (own : NodeKind → β) (r : Registry β) (family : Family) :
    Except CompileError Unit × Registry β :=
  r.applyAll (family.registrations own)

/-- Registers a family, each kind with its own rule. -/
def addFamily (r : Registry) (family : Family) : Except CompileError Unit × Registry :=
  r.addFamilyWith id family

/-- The registry with all families. -/
def standard : Registry :=
  Family.all.foldl (fun r family => (r.addFamily family).2) {}

/-- The record for a registry that was made. -/
def announcement (r : Registry) : Event := .registered r.commands.length r.laidOut.length

end Registry

end MathMarkup

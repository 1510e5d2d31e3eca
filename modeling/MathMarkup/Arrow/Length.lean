import MathMarkup.Text.Decimal

/-!
# Lengths

Arrows come in classes with different least lengths, told apart by the name of
the command.  The labels of an arrow are set in a smaller font, so the space
around them is given in units of that font.

## Main definitions

* `ArrowLength`, `ArrowLength.ofName` — the classes of arrows.
* `emScale` — the size of the font at a level.
* `labelSize` — a length in units of the font at a level.
-/

namespace MathMarkup

/-! ### Classes of arrows -/

/-- The classes of arrows by length. -/
inductive ArrowLength where
  /-- Arrows that grow with their labels. -/
  | extensible
  /-- Arrows of diagrams. -/
  | diagram
  /-- The short half of an uneven pair. -/
  | shortHarpoon
  /-- All other arrows. -/
  | standard
  deriving DecidableEq, Repr, Inhabited

namespace ArrowLength

/-- The class of the arrow with a name, by the characters behind the first one. -/
def ofName (name : String) : ArrowLength :=
  match name.toList with
  | _ :: 'x' :: _ => extensible
  | _ :: _ :: 'c' :: 'd' :: _ => diagram
  | _ :: 'e' :: 'q' :: _ => shortHarpoon
  | _ => standard

/-- The name of a class. -/
def describe : ArrowLength → String
  | extensible => "Extensible"
  | diagram => "Diagram"
  | shortHarpoon => "ShortHarpoon"
  | standard => "Default"

/-- The least length of an arrow, in em. -/
def minWidth : ArrowLength → Float
  | extensible => 1.75
  | diagram => 3.0
  | shortHarpoon => 1.0
  | standard => 2.0

/-- The least length of an arrow as an attribute. -/
def minSize : ArrowLength → String
  | extensible => "1.75em"
  | diagram => "3.0em"
  | shortHarpoon => "1.0em"
  | standard => "2.0em"

/-- The space behind an arrow as an attribute. -/
def spaceAfter : ArrowLength → String
  | shortHarpoon => "0.5em"
  | _ => "0"

/-- The space in front of a label, in em. -/
def labelIndent : ArrowLength → Float
  | shortHarpoon => 0.0
  | _ => 0.3

/-- What a label takes up beyond its own width, in em. -/
def labelExcess : ArrowLength → Float
  | shortHarpoon => -0.4
  | _ => 0.6

end ArrowLength

/-! ### Levels -/

/-- The level of a formula in running text. -/
def textLevel : Nat := 1

/-- The level of a formula on its own. -/
def displayLevel : Nat := 0

/-- The level at which labels are set, unless they are smaller anyway. -/
def labelLevel (level : Nat) : Nat := max level 2

/-- The size of the font at a level: full up to level one, then smaller. -/
def emScale : Nat → Float
  | 0 | 1 => 1.0
  | 2 => 0.7
  | _ => 0.5

/-- A length in em of the full font, given in em of the font at a level.  Lengths
have four places behind the point. -/
def labelSize (size : Float) (level : Nat) : String :=
  Decimal.fixed 4 (size / emScale level) ++ "em"

end MathMarkup

import MathMarkup.Arrow.Glyph
import MathMarkup.Arrow.Length
import MathMarkup.Markup.Basic
import MathMarkup.Node.Basic

/-!
# Shapes of laid-out nodes

The markup of each kind of node, given the markup of what is inside.

## Main definitions

* `Layout.symbol`, `Layout.phantom`, `Layout.lap` — characters, space and overlap.
* `Layout.labelled` — an arrow with what stands above and below it.
* `Layout.arrow`, `Layout.arrowPair` — one arrow, and two of them.
* `Layout.formula` — the document around a formula.
-/

namespace MathMarkup

namespace Layout

open Markup

/-! ### Characters, space and overlap -/

/-- The element of a symbol: text in text mode, and in math mode a number if there
are only digits, else an operator. -/
def symbolTag (mode : Mode) (text : String) : Tag :=
  match mode with
  | .text => .mtext
  | .math => if text.toList.all Char.isDigit then .mn else .mo

/-- A symbol. -/
def symbol (mode : Mode) (text : String) : Markup := leaf (symbolTag mode text) text

/-- Space as wide as some markup, without height. -/
def phantom (inner : List Markup) : Markup :=
  element .mpadded [("depth", "0px"), ("height", "0px")] [node .mphantom inner]

/-- Where markup that overlaps to a side starts.  In front of a fraction there is
the thin space that the fraction itself would lose. -/
def lapStart (side : Side) (fractionFirst : Bool) : Attributes :=
  match side with
  | .left => [("lspace", "-1width")]
  | .center => [("lspace", "-0.5width")]
  | .right => if fractionFirst then [("lspace", "0.16667em")] else []

/-- Markup that overlaps to a side. -/
def lap (side : Side) (fractionFirst : Bool) (inner : Markup) : Markup :=
  element .mpadded (lapStart side fractionFirst ++ [("width", "0px")]) [inner]

/-! ### Arrows -/

/-- The character of an arrow, which can be stretched. -/
def stretchy (name : String) : Markup :=
  element .mo [("stretchy", "true")] [text (glyph name)]

/-- The character of an arrow with its least length and the space around it. -/
def shaft (name : String) : Markup :=
  (stretchy name).setAttributes
    [("minsize", (ArrowLength.ofName name).minSize), ("lspace", "0"),
      ("rspace", (ArrowLength.ofName name).spaceAfter)]

/-- A length with its sign in front. -/
def signed (length : String) : String :=
  if length.toList.head? = some '-' then length else "+" ++ length

/-- The place of a label at an arrow, given the level of the label.  Without a
label it is as wide as the arrow is at least. -/
def label (length : ArrowLength) (level : Nat) : Option Markup → Markup
  | some inner =>
      element .mpadded
        [("lspace", labelSize length.labelIndent level),
          ("width", signed (labelSize length.labelExcess level))] [inner]
  | none => element .mpadded [("lspace", "0"), ("width", labelSize length.minWidth level)] []

/-- An arrow with what stands above and below it. -/
def labelled (name : String) (level : Nat) (above below : Option Markup) : Markup :=
  let length := ArrowLength.ofName name
  node .munderover
    [shaft name, label length (labelLevel level) below, label length (labelLevel level) above]

/-- An arrow with the space around a relation. -/
def arrow (inner : Markup) : Markup :=
  element .mpadded [("lspace", "0.2778em"), ("width", "+0.5556em")] [inner]

/-- The upper arrow of a pair, raised above the lower one. -/
def raised (width : Attributes) (inner : Markup) : Markup :=
  element .mpadded
    ([("depth", "-0.3em"), ("height", "+0.3em"), ("voffset", "0.3em")] ++ width) [inner]

/-- The two arrows of a pair.  The first one hardly has a width, so that both start
at the same place; where the upper arrow is the short one, the lower one is
first. -/
def overlaid (name : String) (upper lower : Markup) : List Markup :=
  if name = "\\equilibriumLeft" then
    [element .mpadded [("width", "0.5em")] [lower], raised [] upper]
  else
    [raised [("width", if name = "\\equilibriumRight" then "0.5em" else "0")] upper, lower]

/-- A pair of arrows with the space around a relation. -/
def arrowPair (name : String) (upper lower : Markup) : Markup :=
  element .mpadded
    [("depth", "+0.18em"), ("height", "-0.18em"), ("lspace", "0.2778em"),
      ("voffset", "-0.18em"), ("width", "+0.5556em")]
    (overlaid name upper lower)

/-! ### The document -/

/-- The name space of the elements. -/
def nameSpace : String := "http://www.w3.org/1998/Math/MathML"

/-- A formula as one row. -/
def body : List Markup → Markup
  | [m] => if m.isRow then m else node .mrow [m]
  | ms => node .mrow ms

/-- Markup with the source it was made of. -/
def annotated (source : String) (inner : Markup) : Markup :=
  node .semantics
    [inner, element .remark [("encoding", "application/x-tex")] [text source]]

/-- The document around a formula. -/
def formula (display xml : Bool) (inner : Markup) : Markup :=
  element .math
    ((if display then [("display", "block")] else []) ++
      if xml then [("xmlns", nameSpace)] else [])
    [inner]

end Layout

end MathMarkup

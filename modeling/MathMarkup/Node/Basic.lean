import MathMarkup.Error

/-!
# Formula nodes

A formula is a list of nodes.  Each node has a site: the mode it was read in and,
if it was read from the document, its place there.

## Main definitions

* `Site` — mode and place.
* `Node` — the nodes.
* `Node.kind`, `Node.site` — what every node has.
* `Node.elements` — the nodes that an argument stands for.
* `Node.same` — equality up to the numbers of documents.
-/

namespace MathMarkup

/-- Where a node comes from. -/
structure Site where
  /-- The mode it was read in. -/
  mode : Mode
  /-- Its place in the document. -/
  span : Option Span := none
  deriving DecidableEq, Repr, Inhabited

/-- The side to which contents overlap. -/
inductive Side where
  /-- To the left. -/
  | left
  /-- To the right. -/
  | right
  /-- To both sides. -/
  | center
  deriving DecidableEq, Repr, Inhabited

/-- The name of a side. -/
def Side.name : Side → String
  | .left => "llap"
  | .right => "rlap"
  | .center => "clap"

/-- A node of a formula. -/
inductive Node where
  /-- Nodes kept together. -/
  | group (site : Site) (body : List Node)
  /-- A numerator over a denominator. -/
  | fraction (site : Site) (numerator denominator : Node)
  /-- A letter. -/
  | letter (site : Site) (text : String)
  /-- Any other character. -/
  | symbol (site : Site) (text : String)
  /-- Text inside a formula. -/
  | text (site : Site) (body : List Node)
  /-- Space as wide as the body. -/
  | phantom (site : Site) (body : Node)
  /-- A body that overlaps what is next to it. -/
  | lap (site : Site) (side : Side) (body : Node)
  /-- An arrow with a label on top and one below. -/
  | arrow (site : Site) (label : String) (body below : Option Node)
  /-- Two arrows with common labels.  Each arrow has one label itself and space
  for the other one. -/
  | arrowPair (site : Site) (label : String) (body below upperBelow lowerBody : Option Node)
  deriving Inhabited

namespace Node

/-- The kind of a node. -/
def kind : Node → NodeKind
  | group .. => .group
  | fraction .. => .fraction
  | letter .. => .letter
  | symbol .. => .symbol
  | text .. => .text
  | phantom .. => .phantom
  | lap .. => .lap
  | arrow .. => .arrow
  | arrowPair .. => .arrowPair

/-- The site of a node. -/
def site : Node → Site
  | group s .. | fraction s .. | letter s .. | symbol s .. | text s .. | phantom s ..
  | lap s .. | arrow s .. | arrowPair s .. => s

/-- The mode a node was read in. -/
def mode (n : Node) : Mode := n.site.mode

/-- The place of a node. -/
def span (n : Node) : Option Span := n.site.span

/-- The text of a single character. -/
def text? : Node → Option String
  | letter _ t | symbol _ t => some t
  | _ => none

/-- The name of an arrow. -/
def label? : Node → Option String
  | arrow _ l .. | arrowPair _ l .. => some l
  | _ => none

/-- The nodes an argument stands for: those of a group, or the node alone. -/
def elements : Node → List Node
  | group _ body => body
  | n => [n]

/-- Refuses a node of another kind than the expected one. -/
def expectKind (n : Node) (expected : NodeKind) : Except CompileError Unit :=
  if n.kind = expected then .ok ()
  else .error (.located (.kindMismatch expected n.kind) n.span)

/-! ### Equality -/

/-- Whether two sites have the same mode and the same place. -/
def sameSite (a b : Site) : Bool := a.mode == b.mode && Span.agrees? a.span b.span

mutual

/-- Whether two nodes are equal, with places compared by the text they show. -/
def same : Node → Node → Bool
  | group s xs, group t ys => sameSite s t && sameList xs ys
  | fraction s a b, fraction t c d => sameSite s t && same a c && same b d
  | letter s a, letter t b => sameSite s t && a == b
  | symbol s a, symbol t b => sameSite s t && a == b
  | text s xs, text t ys => sameSite s t && sameList xs ys
  | phantom s a, phantom t b => sameSite s t && same a b
  | lap s p a, lap t q b => sameSite s t && p == q && same a b
  | arrow s l a b, arrow t m c d => sameSite s t && l == m && sameOption a c && sameOption b d
  | arrowPair s l a b c d, arrowPair t m e f g h =>
      sameSite s t && l == m && sameOption a e && sameOption b f && sameOption c g
        && sameOption d h
  | _, _ => false

/-- Whether two lists of nodes are equal. -/
def sameList : List Node → List Node → Bool
  | [], [] => true
  | x :: xs, y :: ys => same x y && sameList xs ys
  | _, _ => false

/-- Whether two nodes are equal, where both may be missing. -/
def sameOption : Option Node → Option Node → Bool
  | none, none => true
  | some x, some y => same x y
  | _, _ => false

end

end Node

end MathMarkup

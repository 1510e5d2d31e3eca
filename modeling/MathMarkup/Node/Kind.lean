/-!
# Kinds of formula nodes

## Main definitions

* `NodeKind` — the nine kinds.
* `NodeKind.name` — the name of a kind in messages.
* `NodeKind.all` — all of them.
-/

namespace MathMarkup

/-- The kinds of nodes of a formula. -/
inductive NodeKind where
  /-- A list of nodes kept together. -/
  | group
  /-- A numerator over a denominator. -/
  | fraction
  /-- A letter in math mode. -/
  | letter
  /-- Any other character, and every character in text mode. -/
  | symbol
  /-- Text set inside a formula. -/
  | text
  /-- Space as wide as its contents. -/
  | phantom
  /-- Contents that overlap what is next to them. -/
  | lap
  /-- An arrow that grows with its labels. -/
  | arrow
  /-- Two such arrows, one above the other. -/
  | arrowPair
  deriving DecidableEq, Repr, Inhabited

namespace NodeKind

/-- The name of a kind in messages. -/
def name : NodeKind → String
  | group => "ordgroup"
  | fraction => "genfrac"
  | letter => "mathord"
  | symbol => "textord"
  | text => "text"
  | phantom => "hphantom"
  | lap => "lap"
  | arrow => "x-arrow"
  | arrowPair => "stacked-arrow"

/-- Every kind of node. -/
def all : List NodeKind :=
  [group, fraction, letter, symbol, text, phantom, lap, arrow, arrowPair]

theorem mem_all (k : NodeKind) : k ∈ all := by
  cases k <;> decide

end NodeKind

end MathMarkup

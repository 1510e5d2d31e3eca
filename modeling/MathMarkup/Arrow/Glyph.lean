/-!
# Glyphs of arrows

An arrow is drawn by stretching one character.  A pair of arrows is made of two
arrows, one above the other.

## Main definitions

* `glyph?` — the character of an arrow, `glyph` with a blank for unknown names.
* `arrowPair?` — the two arrows of a pair.
-/

namespace MathMarkup

/-- The characters of arrows, by the name without its backslashes. -/
def glyphTable : List (String × String) :=
  [("xleftarrow", "←"), ("xrightarrow", "→"), ("xleftrightarrow", "↔"),
    ("xRightarrow", "⇒"), ("xleftharpoonup", "↼"), ("xrightharpoonup", "⇀"),
    ("xLeftarrow", "⇐"), ("xLeftrightarrow", "⇔"), ("xhookleftarrow", "↩"),
    ("xhookrightarrow", "↪"), ("xmapsto", "↦"), ("xrightharpoondown", "⇁"),
    ("xleftharpoondown", "↽"), ("xtwoheadleftarrow", "↞"),
    ("xtwoheadrightarrow", "↠"), ("xlongequal", "="),
    ("yields", "→"), ("yieldsLeft", "←"), ("mesomerism", "↔"),
    ("longrightharpoonup", "⇀"), ("eqrightharpoonup", "⇀"),
    ("longleftharpoondown", "↽"), ("eqleftharpoondown", "↽"),
    ("cdrightarrow", "→"), ("cdleftarrow", "←"), ("cdlongequal", "=")]

/-- The character of the arrow with a name. -/
def glyph? (name : String) : Option String :=
  glyphTable.lookup (String.ofList (name.toList.dropWhile (· == '\\')))

/-- The character of the arrow with a name; a blank where there is none, so that
what stands around it keeps its place. -/
def glyph (name : String) : String := (glyph? name).getD " "

/-- The pairs of arrows: the name of a pair, its upper and its lower arrow. -/
def arrowPairTable : List (String × String × String) :=
  [("\\xtofrom", "\\xrightarrow", "\\xleftarrow"),
    ("\\xleftrightharpoons", "\\xleftharpoonup", "\\xrightharpoondown"),
    ("\\xrightleftharpoons", "\\xrightharpoonup", "\\xleftharpoondown"),
    ("\\yieldsLeftRight", "\\yields", "\\yieldsLeft"),
    ("\\equilibrium", "\\longrightharpoonup", "\\longleftharpoondown"),
    ("\\equilibriumRight", "\\longrightharpoonup", "\\eqleftharpoondown"),
    ("\\equilibriumLeft", "\\eqrightharpoonup", "\\longleftharpoondown")]

/-- The upper and the lower arrow of the pair with a name. -/
def arrowPair? (name : String) : Option (String × String) := arrowPairTable.lookup name

end MathMarkup

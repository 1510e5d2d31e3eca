import MathMarkup.Error
import MathMarkup.Text.Escape
import MathMarkup.Text.Quoted

/-!
# Markup trees

The result of a compile is a tree of elements with attributes and of texts.  The
attributes of an element are kept in the order of their names, so that a tree is
written in one way only.

## Main definitions

* `Tag`, `Markup` — the names of elements, and trees.
* `Markup.setAttribute` — put an attribute on an element.
* `Markup.toText` — the text in a tree.
* `Markup.prepend`, `Markup.serialize` — a tree written out, in front of other text
  or alone.
* `Markup.describe` — a listing of a tree.
-/

namespace MathMarkup

/-- The names of elements. -/
inductive Tag where
  /-- The formula as a whole. -/
  | math
  /-- A note on the formula. -/
  | remark
  /-- A formula with notes. -/
  | semantics
  /-- Text. -/
  | mtext
  /-- A number. -/
  | mn
  /-- An operator. -/
  | mo
  /-- An identifier. -/
  | mi
  /-- Something with labels below and above. -/
  | munderover
  /-- A fraction. -/
  | mfrac
  /-- A row. -/
  | mrow
  /-- Space around contents. -/
  | mpadded
  /-- Contents that are not shown. -/
  | mphantom
  deriving DecidableEq, Repr, Inhabited

namespace Tag

/-- The name of an element as it is written. -/
def name : Tag → String
  | math => "math"
  | remark => "annotation"
  | semantics => "semantics"
  | mtext => "mtext"
  | mn => "mn"
  | mo => "mo"
  | mi => "mi"
  | munderover => "munderover"
  | mfrac => "mfrac"
  | mrow => "mrow"
  | mpadded => "mpadded"
  | mphantom => "mphantom"

/-- The name of an element in a listing. -/
def describe : Tag → String
  | math => "Math"
  | remark => "Annotation"
  | semantics => "Semantics"
  | mtext => "Mtext"
  | mn => "Mn"
  | mo => "Mo"
  | mi => "Mi"
  | munderover => "Munderover"
  | mfrac => "Mfrac"
  | mrow => "Mrow"
  | mpadded => "Mpadded"
  | mphantom => "Mphantom"

end Tag

/-- Attributes by name, in the order of the names. -/
abbrev Attributes := List (String × String)

namespace Attributes

/-- Sets an attribute at its place in the order; an earlier value is replaced. -/
def set (name value : String) : Attributes → Attributes
  | [] => [(name, value)]
  | (other, old) :: rest =>
      if name < other then (name, value) :: (other, old) :: rest
      else if name = other then (name, value) :: rest
      else (other, old) :: set name value rest

/-- Attributes from a list, later ones replacing earlier ones of the same name. -/
def ofList (entries : List (String × String)) : Attributes :=
  entries.foldl (fun attributes (name, value) => set name value attributes) []

end Attributes

/-- A tree of elements and texts. -/
inductive Markup where
  /-- An element with its attributes and what it contains. -/
  | element (tag : Tag) (attributes : Attributes) (children : List Markup)
  /-- A piece of text. -/
  | text (s : String)
  deriving Inhabited

namespace Markup

/-- An element without attributes. -/
def node (tag : Tag) (children : List Markup) : Markup := element tag [] children

/-- An element that contains a text. -/
def leaf (tag : Tag) (s : String) : Markup := node tag [text s]

/-- Sets an attribute of an element. -/
def setAttribute (m : Markup) (name value : String) : Markup :=
  match m with
  | element tag attributes children => element tag (attributes.set name value) children
  | text s => text s

/-- Sets several attributes of an element, from left to right. -/
def setAttributes (m : Markup) (entries : List (String × String)) : Markup :=
  entries.foldl (fun m (name, value) => m.setAttribute name value) m

/-- The attributes of an element; a text has none. -/
def attributes : Markup → Attributes
  | element _ attributes _ => attributes
  | text _ => []

/-- The value of an attribute. -/
def attribute? (m : Markup) (name : String) : Option String := m.attributes.lookup name

/-- What an element contains; a text contains nothing. -/
def children : Markup → List Markup
  | element _ _ children => children
  | text _ => []

/-- Replaces what an element contains. -/
def withChildren : Markup → List Markup → Markup
  | element tag attributes _, children => element tag attributes children
  | text s, _ => text s

/-- Adds to what an element contains. -/
def addChild (m : Markup) (child : Markup) : Markup := m.withChildren (m.children ++ [child])

/-- Whether a tree is a row. -/
def isRow : Markup → Bool
  | element .mrow _ _ => true
  | _ => false

/-- Several trees as one: a single one stays as it is, others become a row. -/
def row : List Markup → Markup
  | [m] => m
  | ms => node .mrow ms

/-! ### Text and written form -/

mutual

/-- The text in a tree, from left to right. -/
def toText : Markup → String
  | element _ _ children => toTextList children
  | text s => s

/-- The text in some trees, from left to right. -/
def toTextList : List Markup → String
  | [] => ""
  | m :: ms => toText m ++ toTextList ms

end

/-- The attributes of an element as they are written, each behind a blank. -/
def attributeChars (attributes : Attributes) : List Char :=
  attributes.flatMap fun (name, value) =>
    [' '] ++ name.toList ++ ['=', '"'] ++ Text.escape value.toList ++ ['"']

mutual

/-- The characters of a tree as it is written, in front of what follows.  Every
element has an opening and a closing tag. -/
def prepend : Markup → List Char → List Char
  | element tag attributes children, rest =>
      '<' :: (tag.name.toList ++ (attributeChars attributes ++ ('>' ::
        prependList children ('<' :: '/' :: (tag.name.toList ++ ('>' :: rest))))))
  | text s, rest => Text.escape s.toList ++ rest

/-- The characters of some trees, one after the other, in front of what follows. -/
def prependList : List Markup → List Char → List Char
  | [], rest => rest
  | m :: ms, rest => prepend m (prependList ms rest)

end

/-- The characters of a tree as it is written. -/
def chars (m : Markup) : List Char := m.prepend []

/-- A tree written out. -/
def serialize (m : Markup) : String := String.ofList m.chars

/-- A tree written out where there is room for so many bytes. -/
def serializeWithin (limit : Nat) (m : Markup) : Except CompileError String :=
  let written := m.serialize
  if written.utf8ByteSize ≤ limit then .ok written else .error ⟨.writeFailed, none⟩

/-! ### Listing and equality -/

mutual

/-- A listing of a tree on one line. -/
def describe : Markup → String
  | element tag attributes children =>
      "MathNode \x7b node_type: " ++ tag.describe ++ ", attributes: \x7b"
        ++ ", ".intercalate
          (attributes.map fun (name, value) => Text.quote name ++ ": " ++ Text.quote value)
        ++ "\x7d, children: [" ++ ", ".intercalate (describeList children) ++ "] \x7d"
  | text s => "TextNode \x7b text: " ++ Text.quote s ++ " \x7d"

/-- Listings of what an element contains, each with its sort. -/
def describeList : List Markup → List String
  | [] => []
  | element tag attributes children :: ms =>
      ("Math(" ++ describe (element tag attributes children) ++ ")") :: describeList ms
  | text s :: ms => ("Text(" ++ describe (text s) ++ ")") :: describeList ms

end

mutual

/-- Whether two trees are equal. -/
def same : Markup → Markup → Bool
  | element t a xs, element u b ys => t == u && a == b && sameList xs ys
  | text s, text t => s == t
  | _, _ => false

/-- Whether two lists of trees are equal. -/
def sameList : List Markup → List Markup → Bool
  | [], [] => true
  | x :: xs, y :: ys => same x y && sameList xs ys
  | _, _ => false

end

end Markup

end MathMarkup

import MathMarkup.Text.Bytes

/-!
# Documents and spans

A span is a range of bytes of a document.  Two documents can have the same text
and still be different documents, so each has a serial number: spans are only
joined within one document, while two spans agree as soon as they show the same
range of the same text.

## Main definitions

* `Document`, `Span` — a numbered text and a byte range of it.
* `Span.text` — the text under a span.
* `Span.cover` — the least span over two spans of one document.
* `Span.agrees` — same range of the same text.
-/

namespace MathMarkup

/-- A text that is compiled, told apart from other texts by its serial number. -/
structure Document where
  /-- The text. -/
  text : String
  /-- The number of the document. -/
  serial : Nat := 0
  deriving DecidableEq, Repr, Inhabited

/-- A range of bytes of a document: `start` is the first byte inside, `stop` the
first one after it. -/
structure Span where
  /-- The document the range lies in. -/
  document : Document
  /-- Offset of the first byte. -/
  start : Nat
  /-- Offset just after the last byte. -/
  stop : Nat
  deriving DecidableEq, Repr, Inhabited

namespace Span

/-- The characters under a span, if it is a proper range of its document. -/
def chars? (s : Span) : Option (List Char) :=
  Text.slice? s.document.text.toList s.start s.stop

/-- The text under a span; empty when the span is no proper range. -/
def text (s : Span) : String :=
  String.ofList (s.chars?.getD [])

/-- The range as it is shown to a reader, `start..stop`. -/
def describe (s : Span) : String :=
  s.start.repr ++ ".." ++ s.stop.repr

/-- The least span that covers both of two spans.  Of a missing and a present
span the present one is taken; spans of different documents have no common
span. -/
def cover : Option Span → Option Span → Option Span
  | some a, some b =>
      if a.document.serial = b.document.serial then
        some { a with start := min a.start b.start, stop := max a.stop b.stop }
      else none
  | some a, none => some a
  | none, some b => some b
  | none, none => none

/-- Whether two spans show the same range of the same text. -/
def agrees (a b : Span) : Bool :=
  a.document.text == b.document.text && a.start == b.start && a.stop == b.stop

/-- Whether two spans agree, where both may be missing. -/
def agrees? : Option Span → Option Span → Bool
  | some a, some b => a.agrees b
  | none, none => true
  | _, _ => false

end Span

end MathMarkup

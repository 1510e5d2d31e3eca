import MathMarkup.Document

/-!
# Tokens

A token is a piece of markup text together with the place it was read from.
Tokens that come out of a macro have no place.

## Main definitions

* `Token` — text and place.
* `Token.isEnd` — the marker that follows the last token of a document.
* `Token.isControl` — whether the token names a command.
-/

namespace MathMarkup

/-- A piece of markup: a command name, a brace or bracket, or one character with
its accents. -/
structure Token where
  /-- The text of the token. -/
  text : String
  /-- Where the token stands in the document, if it was read from there. -/
  span : Option Span := none
  deriving DecidableEq, Repr, Inhabited

namespace Token

/-- The text of the marker for the end of the input. -/
def endText : String := "EOF"

/-- The marker for the end of the input. -/
def finish (span : Option Span) : Token := ⟨endText, span⟩

/-- Whether a token marks the end of the input. -/
def isEnd (t : Token) : Bool := t.text == endText

@[simp] theorem isEnd_finish (span : Option Span) : (finish span).isEnd = true := by
  simp [finish, isEnd]

/-- Whether a token is a backslash with something after it. -/
def isControl (t : Token) : Bool :=
  match t.text.toList with
  | c :: _ :: _ => c == '\\'
  | _ => false

/-- The token without its place. -/
def detach (t : Token) : Token := { t with span := none }

end Token

end MathMarkup

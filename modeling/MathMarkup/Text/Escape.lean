/-!
# Escaped text

Text that is put into markup has the five characters that mean something there
replaced by entities.

## Main definitions

* `escapeChar`, `escape` — a character and a text with entities.
-/

namespace MathMarkup.Text

/-- A character as it is written inside markup. -/
def escapeChar : Char → List Char
  | '&' => ['&', 'a', 'm', 'p', ';']
  | '>' => ['&', 'g', 't', ';']
  | '<' => ['&', 'l', 't', ';']
  | '"' => ['&', 'q', 'u', 'o', 't', ';']
  | '\x27' => ['&', '#', 'x', '2', '7', ';']
  | c => [c]

/-- A text as it is written inside markup. -/
def escape (cs : List Char) : List Char := cs.flatMap escapeChar

@[simp] theorem escape_nil : escape [] = [] := rfl

@[simp] theorem escape_cons (c : Char) (cs : List Char) :
    escape (c :: cs) = escapeChar c ++ escape cs := rfl

@[simp] theorem escape_append (as bs : List Char) : escape (as ++ bs) = escape as ++ escape bs := by
  simp [escape]

/-- A string as it is written inside markup. -/
def escapeString (s : String) : String := String.ofList (escape s.toList)

end MathMarkup.Text

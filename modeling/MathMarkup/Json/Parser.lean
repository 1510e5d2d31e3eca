import MathMarkup.Json.Value
import MathMarkup.Json.Text

/-!
# Reading JSON text

The text is cut into lexemes first, and the lexemes are then read as a value.
Nothing but blanks may follow the value.

## Main definitions

* `Json.Lexeme`, `Json.lexemes?` — the lexemes of a text.
* `Json.Shorter` — what is left of a list after something was read from it.
* `Json.value?` — the value at the start of a list of lexemes.
* `Json.parse?` — the value a text stands for.
-/

namespace MathMarkup.Json

/-! ### Lexemes -/

/-- The smallest parts of JSON text. -/
inductive Lexeme where
  /-- An opening bracket. -/
  | openArray
  /-- A closing bracket. -/
  | closeArray
  /-- An opening brace. -/
  | openObject
  /-- A closing brace. -/
  | closeObject
  /-- A comma. -/
  | comma
  /-- A colon. -/
  | colon
  /-- A word that stands for a value. -/
  | word (value : Json)
  /-- A number. -/
  | number (n : Number)
  /-- A string. -/
  | string (s : Option String)

/-- The blanks of JSON text. -/
def isSpace (c : Char) : Bool := c == ' ' || c == '\n' || c == '\t' || c == '\r'

/-- The value of a decimal digit. -/
def digitValue (c : Char) : Nat := c.toNat - '0'.toNat

/-- The digits at the start of a text, and the text behind them. -/
def readDigits (cs : List Char) : List Nat × List Char :=
  ((cs.takeWhile Char.isDigit).map digitValue, cs.dropWhile Char.isDigit)

/-- At least one digit at the start of a text, and the text behind. -/
def readDigits1? (cs : List Char) : Option (List Nat × List Char) :=
  match readDigits cs with
  | ([], _) => none
  | read => some read

/-- The digits behind a point, where one follows. -/
def readFraction? : List Char → Option (List Nat × List Char)
  | '.' :: rest => readDigits1? rest
  | cs => some ([], cs)

/-- The sign of an exponent, and the text behind it. -/
def readSign : List Char → Bool × List Char
  | '-' :: rest => (true, rest)
  | '+' :: rest => (false, rest)
  | cs => (false, cs)

/-- The exponent, where one follows. -/
def readExponent? (cs : List Char) : Option (Option (Bool × List Nat) × List Char) :=
  match cs with
  | c :: rest =>
      if c = 'e' ∨ c = 'E' then do
        let (negative, digits) := readSign rest
        let (exponent, behind) ← readDigits1? digits
        return (some (negative, exponent), behind)
      else some (none, cs)
  | [] => some (none, [])

/-- The digits in front of a point: a zero, or digits that do not start with
one. -/
def readWhole? : List Char → Option (List Nat × List Char)
  | '0' :: rest => some ([0], rest)
  | cs => readDigits1? cs

/-- The number at the start of a text, and the text behind it. -/
def readNumber? (cs : List Char) : Option (Number × List Char) := do
  let (negative, unsigned) := match cs with
    | '-' :: rest => (true, rest)
    | _ => (false, cs)
  let (whole, rest) ← readWhole? unsigned
  let (fraction, rest) ← readFraction? rest
  let (exponent, rest) ← readExponent? rest
  return ({ negative, whole, fraction, exponent }, rest)

/-- The lexeme at the start of a text, and the text behind it. -/
def readLexeme? : List Char → Option (Lexeme × List Char)
  | '[' :: rest => some (.openArray, rest)
  | ']' :: rest => some (.closeArray, rest)
  | '\x7b' :: rest => some (.openObject, rest)
  | '\x7d' :: rest => some (.closeObject, rest)
  | ',' :: rest => some (.comma, rest)
  | ':' :: rest => some (.colon, rest)
  | '"' :: rest =>
      (readPieces rest).map fun (pieces, behind) =>
        (.string ((joinPieces pieces).map String.ofList), behind)
  | 'n' :: 'u' :: 'l' :: 'l' :: rest => some (.word .null, rest)
  | 't' :: 'r' :: 'u' :: 'e' :: rest => some (.word (.bool true), rest)
  | 'f' :: 'a' :: 'l' :: 's' :: 'e' :: rest => some (.word (.bool false), rest)
  | cs => (readNumber? cs).map fun (n, rest) => (.number n, rest)

/-- The lexemes of a text.  What a lexeme leaves is shorter than what it was read
from; the text ends at the latest after as many lexemes as it has characters. -/
def lexemesWithin : Nat → List Char → Option (List Lexeme)
  | 0, cs => if cs.all isSpace then some [] else none
  | n + 1, cs =>
      match cs.dropWhile isSpace with
      | [] => some []
      | text => do
          let (lexeme, rest) ← readLexeme? text
          let lexemes ← lexemesWithin n rest
          return lexeme :: lexemes

/-- The lexemes of a text. -/
def lexemes? (text : String) : Option (List Lexeme) :=
  let cs := text.toList
  lexemesWithin cs.length cs

/-! ### Values -/

/-- What is left of a list after something was read from its start. -/
abbrev Shorter {α : Type} (xs : List α) : Type := { rest : List α // rest.length < xs.length }

mutual

/-- The value at the start of a list of lexemes, and what is left. -/
def value? (xs : List Lexeme) : Option (Json × Shorter xs) :=
  match xs with
  | .word v :: rest => some (v, ⟨rest, Nat.lt_succ_self _⟩)
  | .number n :: rest => some (.number n, ⟨rest, Nat.lt_succ_self _⟩)
  | .string s :: rest => some (.string s, ⟨rest, Nat.lt_succ_self _⟩)
  | .openArray :: .closeArray :: rest =>
      some (.array [], ⟨rest, Nat.lt_succ_of_lt (Nat.lt_succ_self _)⟩)
  | .openArray :: rest =>
      match items? rest with
      | some (items, ⟨behind, h⟩) => some (.array items, ⟨behind, Nat.lt_succ_of_lt h⟩)
      | none => none
  | .openObject :: .closeObject :: rest =>
      some (.object [], ⟨rest, Nat.lt_succ_of_lt (Nat.lt_succ_self _)⟩)
  | .openObject :: rest =>
      match fields? rest with
      | some (fields, ⟨behind, h⟩) => some (.object fields, ⟨behind, Nat.lt_succ_of_lt h⟩)
      | none => none
  | _ => none
termination_by (xs.length, 0)

/-- Values with commas between them, up to the end of the array. -/
def items? (xs : List Lexeme) : Option (List Json × Shorter xs) :=
  match value? xs with
  | some (v, ⟨.closeArray :: rest, h⟩) => some ([v], ⟨rest, Nat.lt_of_succ_lt h⟩)
  | some (v, ⟨.comma :: rest, h⟩) =>
      have _ : rest.length < xs.length := Nat.lt_of_succ_lt h
      match items? rest with
      | some (vs, ⟨behind, h'⟩) => some (v :: vs, ⟨behind, Nat.lt_trans h' (Nat.lt_of_succ_lt h)⟩)
      | none => none
  | _ => none
termination_by (xs.length, 1)

/-- Named values with commas between them, up to the end of the object. -/
def fields? (xs : List Lexeme) : Option (List (Option String × Json) × Shorter xs) :=
  match xs with
  | .string name :: .colon :: ys =>
      match value? ys with
      | some (v, ⟨.closeObject :: rest, h⟩) =>
          some ([(name, v)], ⟨rest, Nat.lt_add_right 2 (Nat.lt_of_succ_lt h)⟩)
      | some (v, ⟨.comma :: rest, h⟩) =>
          have _ : rest.length < ys.length := Nat.lt_of_succ_lt h
          match fields? rest with
          | some (vs, ⟨behind, h'⟩) =>
              some ((name, v) :: vs,
                ⟨behind, Nat.lt_add_right 2 (Nat.lt_trans h' (Nat.lt_of_succ_lt h))⟩)
          | none => none
      | _ => none
  | _ => none
termination_by (xs.length, 1)

end

/-- The value that a text stands for. -/
def parse? (text : String) : Option Json := do
  match value? (← lexemes? text) with
  | some (v, ⟨[], _⟩) => some v
  | _ => none

end MathMarkup.Json

/-!
# Quoted text

Text shown between double quotes, the way a listing of a tree shows it: quotes,
backslashes and control characters are escaped.  The rule covers ASCII text; any
other character is shown as it is.

## Main definitions

* `quoteChar`, `quote` — a character and a text inside quotes.
-/

namespace MathMarkup.Text

/-- A control character by its number, in braces. -/
def numberedEscape (c : Char) : List Char :=
  ['\\', 'u', '\x7b'] ++ Nat.toDigits 16 c.toNat ++ ['\x7d']

/-- A character as it is shown between double quotes. -/
def quoteChar : Char → List Char
  | '"' => ['\\', '"']
  | '\\' => ['\\', '\\']
  | '\n' => ['\\', 'n']
  | '\r' => ['\\', 'r']
  | '\t' => ['\\', 't']
  | '\x00' => ['\\', '0']
  | c => if c.val < 0x20 ∨ c.val = 0x7F then numberedEscape c else [c]

/-- A text between double quotes. -/
def quote (s : String) : String :=
  String.ofList ('"' :: s.toList.flatMap quoteChar ++ ['"'])

end MathMarkup.Text

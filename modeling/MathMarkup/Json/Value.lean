/-!
# JSON values

A value is kept as it was written, as far as readers of it can tell the
difference: a number keeps its digits, an object keeps the order of its fields
and fields that occur twice, and a string that pairs its surrogates wrongly is
marked as unreadable but is no error by itself.

## Main definitions

* `Json.Number` — a number by its digits.
* `Json` — values.
-/

namespace MathMarkup

/-- A number as it is written: a sign, digits, digits behind a point, and an
exponent.  No exponent and no digits behind a point make an integer. -/
structure Json.Number where
  /-- Whether a minus sign stands in front. -/
  negative : Bool
  /-- The digits in front of the point. -/
  whole : List Nat
  /-- The digits behind the point. -/
  fraction : List Nat := []
  /-- The exponent: whether it is negative, and its digits. -/
  exponent : Option (Bool × List Nat) := none
  deriving DecidableEq, Repr

/-- A JSON value.  A string is missing where an escape in it names half of a
surrogate pair without the other half. -/
inductive Json where
  /-- The null value. -/
  | null
  /-- A truth value. -/
  | bool (b : Bool)
  /-- A number. -/
  | number (n : Json.Number)
  /-- A string. -/
  | string (s : Option String)
  /-- A list of values. -/
  | array (items : List Json)
  /-- Named values, in the order they were written. -/
  | object (fields : List (Option String × Json))
  deriving Inhabited

namespace Json

/-- The truth value, if it is one. -/
def bool? : Json → Option Bool
  | bool b => some b
  | _ => none

/-- The text of a string, if it is one and can be read. -/
def string? : Json → Option String
  | string s => s
  | _ => none

end Json

end MathMarkup

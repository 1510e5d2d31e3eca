import MathMarkup.Json.Value

/-!
# Numbers in JSON values

An integer is exact as long as it fits the range that is asked for.  A double is
made from the leading digits, as many as fit into 64 bits, by one multiplication
or division with a power of ten; digits that do not fit are dropped.  The result
is the nearest double or a neighbour of it.

## Main definitions

* `Json.Number.int64?` — the number as an integer of 64 bits.
* `Json.Number.float?` — the number as a double, if it is finite.
-/

namespace MathMarkup.Json.Number

/-- The number whose decimal digits are given. -/
def ofDigits (digits : List Nat) : Nat := digits.foldl (fun n d => 10 * n + d) 0

/-- Whether the number is written without a point and without an exponent. -/
def isInteger (n : Number) : Bool := n.fraction.isEmpty && n.exponent.isNone

/-- The number as a signed integer of 64 bits.  A minus sign in front of a zero
makes it no integer. -/
def int64? (n : Number) : Option Int :=
  let size := ofDigits n.whole
  if !n.isInteger then none
  else if n.negative then
    if size = 0 then none else if size ≤ Nat.pow 2 63 then some (-(size : Int)) else none
  else if size < Nat.pow 2 63 then some (size : Int) else none

/-! ### Doubles -/

/-- The leading digits of a number as an integer below `2 ^ 64`, continued as far
as they fit, and the digits that are left. -/
def takeDigits (significand : Nat) : List Nat → Nat × List Nat
  | [] => (significand, [])
  | d :: ds =>
      if 10 * significand + d < Nat.pow 2 64 then takeDigits (10 * significand + d) ds
      else (significand, d :: ds)

/-- The significand of a number and the power of ten that goes with it, before
its exponent is applied. -/
def scaled (n : Number) : Nat × Int :=
  let (whole, dropped) := takeDigits 0 n.whole
  let (significand, unread) := takeDigits whole n.fraction
  (significand, (dropped.length : Int) - ((n.fraction.length - unread.length : Nat) : Int))

/-- The greatest power of ten that is a double. -/
def maxPower : Nat := 308

/-- A power of ten as a double. -/
def power (n : Nat) : Float := Float.ofScientific 1 false n

/-- Divides by a power of ten, in steps where the power is no double. -/
def divide (f : Float) (n : Nat) : Float :=
  if n ≤ maxPower then f / power n
  else if f == 0.0 then f
  else divide (f / power maxPower) (n - maxPower)
termination_by n
decreasing_by
  simp only [maxPower] at *
  omega

/-- An integer times a power of ten, if that is finite. -/
def scale? (significand : Nat) (exponent : Int) : Option Float :=
  let f := significand.toUInt64.toFloat
  match exponent with
  | .ofNat n =>
      if n ≤ maxPower then
        let product := f * power n
        if product.isInf then none else some product
      else if f == 0.0 then some f
      else none
  | .negSucc n => some (divide f (n + 1))

/-- The greatest exponent that is read. -/
def maxExponent : Nat := Nat.pow 2 31 - 1

/-- The size of a number, without its sign. -/
def size? (n : Number) : Option Float :=
  let (significand, exponent) := n.scaled
  match n.exponent with
  | none => scale? significand exponent
  | some (negative, digits) =>
      let shift := ofDigits digits
      if shift ≤ maxExponent then
        scale? significand (if negative then exponent - shift else exponent + shift)
      else if negative || significand = 0 then some 0.0
      else none

/-- The number as a double, if it is finite. -/
def float? (n : Number) : Option Float :=
  n.size?.map fun f => if n.negative then -f else f

end MathMarkup.Json.Number

/-!
# Decimals with a fixed number of places

A double is written with as many places behind the point as are asked for.  The
exact value of the double is rounded once, and a value halfway between two
decimals goes to the even one.

## Main definitions

* `roundDiv` — a quotient rounded to the nearest integer.
* `Binary`, `Binary.ofBits` — what the bits of a double mean.
* `fixed` — the text of a double with a fixed number of places.
-/

namespace MathMarkup.Decimal

/-- A quotient rounded to the nearest integer, halves to the even one. -/
def roundDiv (numerator denominator : Nat) : Nat :=
  let quotient := numerator / denominator
  let remainder := numerator % denominator
  if 2 * remainder < denominator then quotient
  else if denominator < 2 * remainder then quotient + 1
  else quotient + quotient % 2

/-- The meaning of the bits of a double. -/
inductive Binary where
  /-- An integer times a power of two, with a sign. -/
  | finite (negative : Bool) (significand : Nat) (exponent : Int)
  /-- An infinity. -/
  | infinite (negative : Bool)
  /-- No number at all. -/
  | nan
  deriving DecidableEq, Repr

/-- The meaning of the bits of a double: one bit of sign, eleven of exponent and
fifty-two of significand. -/
def Binary.ofBits (bits : Nat) : Binary :=
  let negative := bits / Nat.pow 2 63 % 2 == 1
  let exponent : Nat := bits / Nat.pow 2 52 % Nat.pow 2 11
  let significand := bits % Nat.pow 2 52
  if exponent = Nat.pow 2 11 - 1 then
    if significand = 0 then infinite negative else nan
  else if exponent = 0 then finite negative significand (-1074)
  else finite negative (Nat.pow 2 52 + significand) ((exponent : Int) - 1075)

/-- An integer times a power of two in units of `10 ^ -places`, rounded. -/
def roundScaled (places significand : Nat) : Int → Nat
  | .ofNat n => significand * Nat.pow 10 places * Nat.pow 2 n
  | .negSucc n => roundDiv (significand * Nat.pow 10 places) (Nat.pow 2 (n + 1))

/-- The decimal digits of a number, with zeros in front up to a width. -/
def padDigits (width n : Nat) : List Char :=
  let digits := Nat.toDigits 10 n
  List.replicate (width - digits.length) '0' ++ digits

/-- The text of a count of units of `10 ^ -places`. -/
def unitsText (places units : Nat) : List Char :=
  Nat.toDigits 10 (units / Nat.pow 10 places) ++ ['.']
    ++ padDigits places (units % Nat.pow 10 places)

/-- The text of a double with a fixed number of places behind the point.  A minus
sign is kept even where only zeros follow it. -/
def fixed (places : Nat) (x : Float) : String :=
  match Binary.ofBits x.toBits.toNat with
  | .finite negative significand exponent =>
      String.ofList ((if negative then ['-'] else [])
        ++ unitsText places (roundScaled places significand exponent))
  | .infinite negative => if negative then "-inf" else "inf"
  | .nan => "NaN"

end MathMarkup.Decimal

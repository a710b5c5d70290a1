namespace ZigLint

/-!
# Binary floating-point numbers

Numbers of the form `mantissa * 2 ^ exponent` with 53 binary digits, as 64-bit
floating point keeps them. A decimal is rounded to the nearest such number, a
tie to the even mantissa, in exact arithmetic; `Binary64.shortest` finds the
fewest decimal digits that are rounded back to the same number.
-/

/-- A floating-point number with a 53-bit mantissa. -/
inductive Binary64 where
  | finite (negative : Bool) (mantissa : Nat) (exponent : Int)
  | infinite (negative : Bool)
  | nan
  deriving Repr, DecidableEq

namespace Binary64

/-- The quotient rounded to the nearest whole number, a tie to the even one. -/
def roundQuotient (numerator denominator : Nat) : Nat :=
  let quotient := numerator / denominator
  let doubled := 2 * (numerator % denominator)
  if denominator < doubled || (doubled == denominator && quotient % 2 == 1) then
    quotient + 1
  else
    quotient

/-- The quotient `numerator / denominator` divided by `base ^ exponent`, as a quotient. -/
def divideByPower (base numerator denominator : Nat) (exponent : Int) : Nat × Nat :=
  if 0 ≤ exponent then
    (numerator, denominator * base.pow exponent.toNat)
  else
    (numerator * base.pow (-exponent).toNat, denominator)

/-- The smallest exponent of a number. -/
def minExponent : Int := -1074

/-- The largest exponent of a number. -/
def maxExponent : Int := 971

/-- The first number that a mantissa cannot be, as it has 54 binary digits. -/
def mantissaLimit : Nat := 0x20000000000000

/-- The positive quotient rounded to 53 binary digits. -/
def ofQuotient (negative : Bool) (numerator denominator : Nat) : Binary64 :=
  let guess : Int := (numerator.log2 : Int) - denominator.log2 - 53
  let (top, bottom) := divideByPower 2 numerator denominator guess
  let exponent := max minExponent (if top < bottom * mantissaLimit then guess else guess + 1)
  let (top, bottom) := divideByPower 2 numerator denominator exponent
  let mantissa := roundQuotient top bottom
  let (mantissa, exponent) :=
    if mantissa = mantissaLimit then (mantissaLimit / 2, exponent + 1) else (mantissa, exponent)
  if maxExponent < exponent then
    .infinite negative
  else
    .finite negative mantissa exponent

/-- Number of decimal digits. -/
def digitCount (number : Nat) : Nat :=
  (Nat.toDigits 10 number).length

/-- The decimal `digits * 10 ^ exponent`, rounded. -/
def ofDecimal (negative : Bool) (digits : Nat) (exponent : Int) : Binary64 :=
  let magnitude := digitCount digits + exponent
  if digits = 0 ∨ magnitude < -330 then
    .finite negative 0 0
  else if 310 < magnitude then
    .infinite negative
  else
    let (numerator, denominator) := divideByPower 10 digits 1 (-exponent)
    ofQuotient negative numerator denominator

/-- Position of the first decimal digit of a positive quotient: zero for the units. -/
def leadingPosition (numerator denominator : Nat) : Int :=
  if denominator ≤ numerator then
    (digitCount (numerator / denominator) : Int) - 1
  else
    -(((List.range 400).find? fun places => denominator ≤ numerator * Nat.pow 10 places).getD 0 : Nat)

/--
The fewest decimal digits that are rounded to `mantissa * 2 ^ exponent`.

The answer `(digits, power)` stands for `digits * 10 ^ power`. For each number
of digits the two decimals next to the number are tried, the nearer one first,
and of two that are equally near the larger one. A decimal that ends in a zero
is written without it.
-/
def shortest (mantissa : Nat) (exponent : Int) : Nat × Int :=
  if mantissa = 0 then
    (0, 0)
  else
    let (numerator, denominator) := divideByPower 2 mantissa 1 (-exponent)
    let leading := leadingPosition numerator denominator
    let attempt (count : Nat) : Option (Nat × Int) :=
      let power := leading - count
      let (top, bottom) := divideByPower 10 numerator denominator power
      let below := top / bottom
      let candidates :=
        if 2 * (top % bottom) < bottom then [below, below + 1] else [below + 1, below]
      let found := candidates.find? fun digits =>
        ofDecimal false digits power = .finite false mantissa exponent
      found.map fun digits =>
        if digits % 10 = 0 then (digits / 10, power + 1) else (digits, power)
    ((List.range 17).findSome? attempt).getD (mantissa, 0)

/-- The decimal `digits * 10 ^ power` written out, with a decimal point. -/
def positional (digits : Nat) (power : Int) : String :=
  let text := Nat.toDigits 10 digits
  if 0 ≤ power then
    String.ofList (text ++ List.replicate power.toNat '0') ++ ".0"
  else
    let places := (-power).toNat
    let padded := List.replicate (places + 1 - text.length) '0' ++ text
    let split := padded.length - places
    String.ofList (padded.take split) ++ "." ++ String.ofList (padded.drop split)

/-- The number in its shortest positional form. -/
def text : Binary64 → String
  | .finite negative mantissa exponent =>
      let (digits, power) := shortest mantissa exponent
      (if negative then "-" else "") ++ positional digits power
  | .infinite negative => if negative then "-inf" else "inf"
  | .nan => "NaN"

end Binary64

end ZigLint

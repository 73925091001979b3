/-!
# Binary floating-point numbers

The numbers of the 64-bit binary format: a mantissa below `2 ^ 53` times a power of two, and
values for infinity and for no number.  `Binary64.ofDecimal` is the number nearest to a decimal
number; of two equally near ones, it is the one with an even mantissa.
-/

namespace GradleWorkspace

/-- A number in the 64-bit binary format. -/
inductive Binary64
  | nan
  | infinite (negative : Bool)
  /-- The number `mantissa * 2 ^ exponent`, or its negative. -/
  | finite (negative : Bool) (mantissa : Nat) (exponent : Int)
  deriving DecidableEq, Repr

namespace Binary64

/-- A power of two. -/
def twoTo (n : Nat) : Nat := Nat.pow 2 n

/-- A power of ten. -/
def tenTo (n : Nat) : Nat := Nat.pow 10 n

/-- The least exponent. -/
def minExponent : Int := -1074

/-- The greatest exponent. -/
def maxExponent : Int := 971

/-- The whole number nearest to a fraction; of two equally near ones, the even one. -/
def roundFraction (numerator denominator : Nat) : Nat :=
  let whole := numerator / denominator
  let rest := numerator % denominator
  if 2 * rest < denominator ∨ (2 * rest = denominator ∧ whole % 2 = 0) then whole else whole + 1

/-- A fraction divided by a power of two, rounded to a whole number. -/
def roundScaled (numerator denominator : Nat) (exponent : Int) : Nat :=
  if exponent < 0 then roundFraction (numerator * twoTo (-exponent).toNat) denominator
  else roundFraction numerator (denominator * twoTo exponent.toNat)

/-- The exponent for which a positive fraction has a mantissa of 53 binary digits, or the least
exponent. -/
def exponentFor (numerator denominator : Nat) : Int :=
  let low : Int := numerator.log2 - denominator.log2 - 53
  let fits : Bool :=
    if low < 0 then numerator * twoTo (-low).toNat < denominator * twoTo 53
    else numerator < denominator * twoTo (low.toNat + 53)
  max minExponent (if fits then low else low + 1)

/-- The number nearest to a fraction. -/
def ofFraction (negative : Bool) (numerator denominator : Nat) : Binary64 :=
  if numerator = 0 then .finite negative 0 minExponent
  else
    let exponent := exponentFor numerator denominator
    let mantissa := roundScaled numerator denominator exponent
    let (mantissa, exponent) :=
      if mantissa = twoTo 53 then (twoTo 52, exponent + 1) else (mantissa, exponent)
    if exponent > maxExponent then .infinite negative else .finite negative mantissa exponent

/-- How many decimal digits a whole number has. -/
def digitCount (n : Nat) : Nat := (Nat.toDigits 10 n).length

/-- The number nearest to `digits * 10 ^ exponent`. -/
def ofDecimal (negative : Bool) (digits : Nat) (exponent : Int) : Binary64 :=
  let magnitude : Int := digitCount digits + exponent
  if digits = 0 ∨ magnitude < -330 then .finite negative 0 minExponent
  else if magnitude > 310 then .infinite negative
  else if exponent < 0 then ofFraction negative digits (tenTo (-exponent).toNat)
  else ofFraction negative (digits * tenTo exponent.toNat) 1

end Binary64

end GradleWorkspace

import GradleWorkspace.Decimal.Binary64

/-!
# The shortest decimal text of a number

Among the decimal numbers that are rounded to a given binary number, `Binary64.shortest` finds
one with the fewest digits, and of those the nearest to the number.  `Binary64.text` writes it:
positionally if the point is near the digits, and with an exponent otherwise.
-/

namespace GradleWorkspace.Binary64

/-! ## The digits -/

/-- The decimal numbers that are rounded to a positive binary number lie between two ends.  The
number and the ends are fractions of one denominator. -/
structure Interval where
  low : Nat
  value : Nat
  high : Nat
  denominator : Nat
  /-- Whether the ends are rounded to the number too. -/
  closed : Bool

/-- The interval of a positive number.  Its ends lie halfway to the neighbours of the number. -/
def interval (mantissa : Nat) (exponent : Int) : Interval :=
  let up := twoTo exponent.toNat
  let below := if mantissa = twoTo 52 ∧ exponent > minExponent then 1 else 2
  { low := (4 * mantissa - below) * up
    value := 4 * mantissa * up
    high := (4 * mantissa + 2) * up
    denominator := 4 * twoTo (-exponent).toNat
    closed := mantissa % 2 == 0 }

/-- An interval in units of a power of ten. -/
def Interval.scale (i : Interval) (power : Int) : Interval :=
  let up := tenTo (-power).toNat
  { i with
    low := i.low * up
    value := i.value * up
    high := i.high * up
    denominator := i.denominator * tenTo power.toNat }

/-- Whether a whole number of units lies in an interval. -/
def Interval.holds (i : Interval) (n : Nat) : Bool :=
  let scaled := n * i.denominator
  if i.closed then i.low ≤ scaled && scaled ≤ i.high else i.low < scaled && scaled < i.high

/-- The whole number in an interval that is nearest to its value, if one of the two neighbours
of the value lies in it. -/
def Interval.nearest? (i : Interval) : Option Nat :=
  let below := i.value / i.denominator
  let rest := i.value % i.denominator
  match i.holds below, i.holds (below + 1) with
  | true, true =>
    if 2 * rest < i.denominator ∨ (2 * rest = i.denominator ∧ below % 2 = 0) then some below
    else some (below + 1)
  | true, false => some below
  | false, true => some (below + 1)
  | false, false => none

/-- The power of ten of the first digit of a positive fraction. -/
def leadingPower (numerator denominator : Nat) : Int :=
  if denominator ≤ numerator then digitCount (numerator / denominator) - 1
  else
    let shift := digitCount denominator - digitCount numerator
    if denominator ≤ numerator * tenTo shift then -shift else -(shift + 1 : Nat)

/-- A whole number without the zeros at its end, and their number added to an exponent. -/
def dropZeros : Nat → Nat → Int → Nat × Int
  | 0, n, exponent => (n, exponent)
  | bound + 1, n, exponent =>
    if n % 10 = 0 then dropZeros bound (n / 10) (exponent + 1) else (n, exponent)

/-- The digits and the exponent of the shortest decimal number that is rounded to a positive
binary number.  Seventeen digits are always enough. -/
def shortest (mantissa : Nat) (exponent : Int) : Nat × Int :=
  let i := interval mantissa exponent
  let leading := leadingPower i.value i.denominator
  let found := (List.range 17).findSome? fun (n : Nat) =>
    (i.scale (leading - n)).nearest?.map fun digits => dropZeros 17 digits (leading - n)
  found.getD (0, 0)

/-! ## The text -/

/-- The digits of a number before and after the point. -/
def positional (digits : List Char) (point : Int) : List Char :=
  if point ≤ 0 then '0' :: '.' :: List.replicate (-point).toNat '0' ++ digits
  else if digits.length ≤ point.toNat then
    digits ++ List.replicate (point.toNat - digits.length) '0' ++ ['.', '0']
  else digits.take point.toNat ++ '.' :: digits.drop point.toNat

/-- The digits of a number with the point after the first, and a signed exponent of at least two
digits. -/
def scientific (digits : List Char) (exponent : Int) : List Char :=
  let fraction := match digits.drop 1 with
    | [] => []
    | rest => '.' :: rest
  let power := Nat.toDigits 10 exponent.natAbs
  digits.take 1 ++ fraction ++ 'e' :: (if exponent < 0 then '-' else '+') ::
    List.replicate (2 - power.length) '0' ++ power

/-- A positive number in decimal notation.  From `0.0001` up to `10 ^ 16`, without the upper
end, it is written positionally. -/
def positiveText (mantissa : Nat) (exponent : Int) : List Char :=
  let (digits, power) := shortest mantissa exponent
  let digits := Nat.toDigits 10 digits
  let point := digits.length + power
  if -4 < point ∧ point ≤ 16 then positional digits point else scientific digits (point - 1)

/-- A number in decimal notation. -/
def text : Binary64 → String
  | .nan => "nan"
  | .infinite negative => if negative then "-inf" else "inf"
  | .finite negative mantissa exponent =>
    let magnitude := if mantissa = 0 then ['0', '.', '0'] else positiveText mantissa exponent
    String.ofList (if negative then '-' :: magnitude else magnitude)

end GradleWorkspace.Binary64

import BlockProgram.Number.Binary64

/-!
Decimals and doubles.

Reading rounds twice at most: the digits of a decimal are taken while they fit 64 bits, that number
is rounded to a double, and the double is scaled by a power of ten in one rounded step. Exponents
below `-308` are scaled down in several steps, since `10 ^ 308` is the largest power of ten there is.

Writing gives the fewest digits that read back, and of those the nearest to the value. Numbers from
`0.00001` up to sixteen digits before the point are written plainly, all others in scientific form.
-/

namespace BlockProgram

/-- The number `digits * 10 ^ exponent`. -/
structure Decimal where
  digits : Nat
  exponent : Int
  deriving DecidableEq, Repr

namespace Binary64

/-! ### Reading -/

/-- The double nearest to `10 ^ n`. -/
def powerOfTen (n : Nat) : Binary64 :=
  ofRatio false (Nat.pow 10 n) 1

/-- The largest power of ten that is a finite double. -/
def largestPower : Nat := 308

/-- `x * 10 ^ exponent`, rounded; `none` when it overflows. -/
def scale? (x : Binary64) (exponent : Int) : Option Binary64 :=
  if x.isZero then some x
  else if exponent < -largestPower then
    scale? (x.div (powerOfTen largestPower)) (exponent + largestPower)
  else if exponent < 0 then some (x.div (powerOfTen exponent.natAbs))
  else if exponent ≤ largestPower then
    let y := x.mul (powerOfTen exponent.toNat)
    if y.isFinite then some y else none
  else none
termination_by exponent.natAbs
decreasing_by simp only [largestPower] at *; omega

/-- The double that a decimal text stands for; `none` when it overflows. -/
def ofDecimal? (negative : Bool) (d : Decimal) : Option Binary64 :=
  (scale? (ofRatio false d.digits 1) d.exponent).map fun x => if negative then x.neg else x

/-! ### Writing -/

/-- The decimal exponent of `units / one`: that of its first digit in scientific form. -/
def leadingExponent (units : Nat) : Int :=
  ((Nat.toDigits 10 (units * Nat.pow 10 400 / one)).length : Int) - 401

/-- The largest `n`-digit decimal that is not above the value of a magnitude. -/
def truncate (magnitude n : Nat) : Decimal :=
  let exponent := leadingExponent (units magnitude) - n + 1
  let digits :=
    if 0 ≤ exponent then units magnitude / (one * Nat.pow 10 exponent.toNat)
    else units magnitude * Nat.pow 10 exponent.natAbs / one
  ⟨digits, exponent⟩

/-- The magnitude nearest to a decimal. -/
def nearestDecimal (d : Decimal) : Nat :=
  if 0 ≤ d.exponent then nearest (d.digits * Nat.pow 10 d.exponent.toNat * one) 1
  else nearest (d.digits * one) (Nat.pow 10 d.exponent.natAbs)

/-- Whether the value of a magnitude lies closer to `d` than to the next decimal of as many digits,
or half way between the two with `d` even. -/
def closerBelow (magnitude : Nat) (d : Decimal) : Bool :=
  let middle := 2 * d.digits + 1
  let value := 2 * units magnitude
  let (left, right) :=
    if 0 ≤ d.exponent then (value, middle * Nat.pow 10 d.exponent.toNat * one)
    else (value * Nat.pow 10 d.exponent.natAbs, middle * one)
  left < right || (left = right && d.digits % 2 = 0)

/-- The `n`-digit decimal that reads back as the magnitude, the nearer one if two do. -/
def withDigits? (magnitude n : Nat) : Option Decimal :=
  let low := truncate magnitude n
  let high : Decimal := { low with digits := low.digits + 1 }
  let lowReads := nearestDecimal low = magnitude
  let highReads := nearestDecimal high = magnitude
  if lowReads && (!highReads || closerBelow magnitude low) then some low
  else if highReads then some high
  else none

/-- The decimal of fewest digits that reads back as the magnitude. Seventeen digits always do. -/
def shortest (magnitude : Nat) : Decimal :=
  ((List.range 17).findSome? fun n => withDigits? magnitude (n + 1)).getD (truncate magnitude 17)

/-- The decimal without zeros at its end. -/
def dropZeros (d : Decimal) : Decimal :=
  let digits := Nat.toDigits 10 d.digits
  let zeros := (digits.reverse.takeWhile (· = '0')).length
  ⟨d.digits / Nat.pow 10 zeros, d.exponent + zeros⟩

/-- The range of decimal exponents that are written plainly. -/
def isPlain (exponent : Int) : Bool :=
  -5 ≤ exponent && exponent ≤ 15

/-- A decimal as text: plain with at least one digit on either side of the point, or scientific with
a signed exponent. -/
def decimalText (d : Decimal) : String :=
  let digits := Nat.toDigits 10 d.digits
  let exponent := d.exponent + digits.length - 1
  if isPlain exponent then
    if exponent < 0 then
      "0." ++ String.ofList (List.replicate (exponent.natAbs - 1) '0' ++ digits)
    else
      let whole := exponent.toNat + 1
      let padded := digits ++ List.replicate (whole - digits.length) '0'
      let fraction := padded.drop whole
      String.ofList (padded.take whole) ++ "." ++
        String.ofList (if fraction.isEmpty then ['0'] else fraction)
  else
    let point := if digits.length = 1 then [] else '.' :: digits.drop 1
    String.ofList (digits.take 1 ++ point) ++ "e" ++
      (if exponent < 0 then "-" else "+") ++ toString exponent.natAbs

/-- A double as text. The sign is written of every double, of zeros and NaNs too. -/
def toText (x : Binary64) : String :=
  (if x.isNegative then "-" else "") ++
    if x.isNaN then "nan"
    else if x.isInfinite then "inf"
    else if x.isZero then "0.0"
    else decimalText (dropZeros (shortest x.magnitude))

end Binary64
end BlockProgram

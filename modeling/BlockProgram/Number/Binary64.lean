/-!
IEEE 754 doubles as their 64 bits.

The 63 bits below the sign are the *magnitude*. Magnitudes are ordered as the values they stand for,
so rounding a ratio to the nearest double is a bisection of magnitudes, and the total order of doubles
is an order of integers. Everything is exact arithmetic on natural numbers: the value of a magnitude
is counted in units of `2 ^ (-1074)`, the smallest positive double.
-/

namespace BlockProgram

/-- A double by its bits. -/
structure Binary64 where
  bits : UInt64
  deriving DecidableEq, Repr, Inhabited

namespace Binary64

/-- The magnitude of the infinities; larger ones are NaNs. -/
def infinity : Nat := 0x7ff0000000000000

/-- The double with a given sign and magnitude. -/
def ofParts (negative : Bool) (magnitude : Nat) : Binary64 :=
  ⟨((if negative then Nat.pow 2 63 else 0) + magnitude).toUInt64⟩

/-- The bits below the sign. -/
def magnitude (x : Binary64) : Nat :=
  x.bits.toNat % Nat.pow 2 63

/-- Whether the sign bit is set. -/
def isNegative (x : Binary64) : Bool :=
  Nat.pow 2 63 ≤ x.bits.toNat

def isNaN (x : Binary64) : Bool :=
  infinity < x.magnitude

def isInfinite (x : Binary64) : Bool :=
  x.magnitude = infinity

def isFinite (x : Binary64) : Bool :=
  x.magnitude < infinity

def isZero (x : Binary64) : Bool :=
  x.magnitude = 0

def zero : Binary64 := ofParts false 0

/-- The same magnitude with the other sign. -/
def neg (x : Binary64) : Binary64 :=
  ofParts (!x.isNegative) x.magnitude

/-- The largest finite double. -/
def largest : Binary64 := ofParts false (infinity - 1)

/-- The value of a magnitude in units of `2 ^ (-1074)`. That of `infinity` is `2 ^ 1024`, the value
beyond which numbers overflow. -/
def units (magnitude : Nat) : Nat :=
  let exponent := magnitude / Nat.pow 2 52
  let fraction := magnitude % Nat.pow 2 52
  if exponent = 0 then fraction else (Nat.pow 2 52 + fraction) * Nat.pow 2 (exponent - 1)

/-- How many units make one. -/
def one : Nat := Nat.pow 2 1074

/-! ### Rounding -/

/-- The largest magnitude that has no bits but those of `found` and the `n` lowest and is not above
`num / den` units. -/
def bisect (num den : Nat) : Nat → Nat → Nat
  | 0, found => found
  | n + 1, found =>
    let next := found + Nat.pow 2 n
    bisect num den n (if next ≤ infinity ∧ units next * den ≤ num then next else found)

/-- The magnitude nearest to `num / den` units; of two equally near ones the even one. -/
def nearest (num den : Nat) : Nat :=
  let low := bisect num den 63 0
  let twice := 2 * num
  let middle := (units low + units (low + 1)) * den
  if low = infinity ∨ twice < middle then low
  else if middle < twice then low + 1
  else low + low % 2

/-- The double nearest to the ratio `num / den`, infinite from the overflow threshold on. -/
def ofRatio (negative : Bool) (num den : Nat) : Binary64 :=
  ofParts negative (nearest (num * one) den)

/-- The double nearest to an integer. -/
def ofInt (n : Int) : Binary64 :=
  ofRatio (n < 0) n.natAbs 1

/-- The rounded product of two finite doubles. -/
def mul (x y : Binary64) : Binary64 :=
  ofParts (x.isNegative != y.isNegative) (nearest (units x.magnitude * units y.magnitude) one)

/-- The rounded quotient of two finite doubles, the second not zero. -/
def div (x y : Binary64) : Binary64 :=
  ofParts (x.isNegative != y.isNegative) (nearest (units x.magnitude * one) (units y.magnitude))

/-! ### Total order -/

/-- The place of a double in the total order: negative NaNs, negative numbers, `-0`, `0`, positive
numbers, positive NaNs. -/
def orderKey (x : Binary64) : Int :=
  if x.isNegative then -(x.magnitude : Int) - 1 else x.magnitude

end Binary64
end BlockProgram

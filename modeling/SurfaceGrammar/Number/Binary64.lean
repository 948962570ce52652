/-!
# Binary floating point numbers

A number of the IEEE 754 format binary64, given by its 64 bits: the sign, 11 bits of the
exponent and 52 bits of the fraction. The bits below the sign are the *magnitude*; as
natural numbers, magnitudes are ordered as the absolute values that they encode.

* `Binary64.multiple`: a finite absolute value as a multiple of `2 ^ (-1074)`, the least
  positive one.
* `Binary64.nearest`: the magnitude nearest to a fraction, ties going to the even one.
* `Binary64.same`: equality of numbers, by which zeros are equal and NaN differs from itself.
-/

namespace SurfaceGrammar

/-- A floating point number, given by its bits. -/
structure Binary64 where
  bits : UInt64
deriving DecidableEq, Inhabited

namespace Binary64

/-- The number of fractions that one exponent has. -/
def fractions : Nat := Nat.pow 2 52

/-- The bit of the sign. -/
def signBit : Nat := Nat.pow 2 63

/-- The magnitude of infinity. Smaller ones are finite and greater ones are no numbers. -/
def infinity : Nat := 2047 * fractions

/-- The number with a sign and a magnitude. -/
def ofMagnitude (negative : Bool) (magnitude : Nat) : Binary64 :=
  ⟨UInt64.ofNat (if negative then signBit + magnitude else magnitude)⟩

/-- Whether the number has a minus sign. -/
def isNegative (x : Binary64) : Bool :=
  signBit ≤ x.bits.toNat

/-- The bits below the sign. -/
def magnitude (x : Binary64) : Nat :=
  x.bits.toNat % signBit

/-- Whether the number is neither infinite nor NaN. -/
def isFinite (x : Binary64) : Bool :=
  x.magnitude < infinity

/-- Whether the bits stand for no number. -/
def isNaN (x : Binary64) : Bool :=
  infinity < x.magnitude

/-- Equality of numbers. Both zeros are equal, and NaN differs from every number. -/
def same (x y : Binary64) : Bool :=
  !x.isNaN && !y.isNaN && (x = y || (x.magnitude = 0 && y.magnitude = 0))

/-- The absolute value of a finite magnitude as a multiple of `2 ^ (-1074)`. -/
def multiple (magnitude : Nat) : Nat :=
  let exponent := magnitude / fractions
  let fraction := magnitude % fractions
  if exponent = 0 then fraction else (fractions + fraction) * Nat.pow 2 (exponent - 1)

/-- The natural number nearest to a fraction, of two equally near ones the even one. -/
def roundEven (numerator denominator : Nat) : Nat :=
  let quotient := numerator / denominator
  let twice := 2 * (numerator % denominator)
  if twice < denominator then quotient
  else if denominator < twice then quotient + 1
  else quotient + quotient % 2

/-- The magnitude nearest to a fraction, of two equally near ones the even one. Fractions
from half a step above the greatest finite value on go to infinity. -/
def nearest (numerator denominator : Nat) : Nat :=
  let scaled := numerator * Nat.pow 2 1074
  let shift := Nat.log2 (scaled / denominator) - 52
  min infinity (shift * fractions + roundEven scaled (denominator * Nat.pow 2 shift))

end Binary64

end SurfaceGrammar

import SurfaceGrammar.Number.Binary64

/-!
# Decimal notation of floating point numbers

A number is written with an optional minus, digits, and an optional fraction after a point;
there is no exponent. Reading gives the nearest floating point number. Writing takes the
fewest digits that read back.

All finite values are multiples of `10 ^ (-1074)`, so an absolute value is measured in this
unit and every step of reading and writing is exact.

* `Decimal.read?`: the number that a text denotes.
* `Decimal.shortest`: the shortest decimal that reads back as a magnitude.
* `Decimal.write`: the text of a number.
-/

namespace SurfaceGrammar.Decimal

/-! ## Reading -/

/-- The number that decimal digits denote. -/
def ofDigits (digits : List Char) : Nat :=
  digits.foldl (fun n c => 10 * n + (c.toNat - '0'.toNat)) 0

/-- The magnitude that digits with an optional fraction denote. -/
def readUnsigned? (text : List Char) : Option Nat :=
  let whole := text.takeWhile Char.isDigit
  if whole = [] then none
  else
    match text.drop whole.length with
    | [] => some (Binary64.nearest (ofDigits whole) 1)
    | '.' :: fraction =>
      if fraction ≠ [] ∧ fraction.all Char.isDigit then
        some (Binary64.nearest (ofDigits (whole ++ fraction)) (Nat.pow 10 fraction.length))
      else none
    | _ => none

/-- The floating point number that a decimal denotes. -/
def read? (text : List Char) : Option Binary64 :=
  match text with
  | '-' :: text => (readUnsigned? text).map (Binary64.ofMagnitude true)
  | _ => (readUnsigned? text).map (Binary64.ofMagnitude false)

/-! ## The fewest digits -/

/-- The number of units `10 ^ (-1074)` in 1. -/
def one : Nat := Nat.pow 10 1074

/-- The absolute value of a finite magnitude in units of `10 ^ (-1074)`. -/
def units (magnitude : Nat) : Nat :=
  Binary64.multiple magnitude * Nat.pow 5 1074

/-- Whether a number of units reads back as a magnitude. -/
def readsBack (magnitude count : Nat) : Bool :=
  Binary64.nearest count one = magnitude

/-- The multiple of `step` nearest to the absolute value of a magnitude, among the two next
to it and if it reads back. Of two equally near ones it is the greater. -/
def nearby? (magnitude step : Nat) : Option Nat :=
  let exact := units magnitude
  let low := exact / step * step
  let high := low + step
  if readsBack magnitude low && (exact - low < high - exact || !readsBack magnitude high) then
    some low
  else if readsBack magnitude high then some high
  else none

/-- The decimal with the fewest digits that reads back as a magnitude, in units of
`10 ^ (-1074)`; the nearest of them. Seventeen digits are always enough. -/
def shortest (magnitude : Nat) : Nat :=
  let exact := units magnitude
  let length := (Nat.toDigits 10 exact).length
  ((List.range 17).findSome? fun digits =>
    nearby? magnitude (Nat.pow 10 (length - (digits + 1)))).getD exact

/-! ## Writing -/

/-- The text without the zeros at its end. -/
def trimZeros (text : List Char) : List Char :=
  (text.reverse.dropWhile (· = '0')).reverse

/-- The digits of a fraction of 1 that is given in units, without zeros at the end. -/
def fractionDigits (count : Nat) : List Char :=
  let digits := Nat.toDigits 10 count
  trimZeros (List.replicate (1074 - digits.length) '0' ++ digits)

/-- A number of units in decimal notation. -/
def writeUnits (count : Nat) : List Char :=
  let whole := Nat.toDigits 10 (count / one)
  match fractionDigits (count % one) with
  | [] => whole
  | fraction => whole ++ '.' :: fraction

/-- The absolute value of a magnitude in decimal notation. -/
def writeMagnitude (magnitude : Nat) : List Char :=
  if magnitude = 0 then ['0']
  else if magnitude < Binary64.infinity then writeUnits (shortest magnitude)
  else ['i', 'n', 'f']

/-- A number in decimal notation. Infinities and NaN are written as words, NaN without a
sign. -/
def write (x : Binary64) : List Char :=
  if x.isNaN then ['N', 'a', 'N']
  else if x.isNegative then '-' :: writeMagnitude x.magnitude
  else writeMagnitude x.magnitude

end SurfaceGrammar.Decimal

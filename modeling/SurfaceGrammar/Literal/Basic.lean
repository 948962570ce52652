import SurfaceGrammar.Number.Decimal

/-!
# Literals

The values that a source can spell out: numbers, texts, characters and truth values.

* `Literal.source`: a literal as a source spells it.
* `Literal.same`: equality of literals, which compares numbers as numbers.
-/

namespace SurfaceGrammar

/-- A value that a source can spell out. -/
inductive Literal where
  | number (value : Binary64)
  | string (value : String)
  | char (value : Char)
  | boolean (value : Bool)
deriving DecidableEq, Inhabited

namespace Literal

/-- A byte as two lower-case hexadecimal digits. -/
def hexByte (n : Nat) : List Char :=
  [Nat.digitChar (n / 16), Nat.digitChar (n % 16)]

/-- A character between quotes, apart from the quotes themselves. Controls are written by
their code points. -/
def escape (c : Char) : List Char :=
  if c = '\\' then ['\\', '\\']
  else if c = '\n' then ['\\', 'n']
  else if c = '\t' then ['\\', 't']
  else if c.toNat < 0x20 ∨ c.toNat = 0x7f then '\\' :: 'x' :: hexByte c.toNat
  else [c]

/-- A character between quotes of one sort, of which it is perhaps one itself. -/
def escapeIn (quote c : Char) : List Char :=
  if c = quote then ['\\', quote] else escape c

/-- A text between quotes. -/
def enclose (quote : Char) (text : List Char) : List Char :=
  quote :: text.flatMap (escapeIn quote) ++ [quote]

/-- A literal as a source spells it. -/
def source : Literal → String
  | number value => String.ofList (Decimal.write value)
  | string value => String.ofList (enclose '"' value.toList)
  | char value => String.ofList (enclose '\'' [value])
  | boolean true => "true"
  | boolean false => "false"

/-- Equality of literals. Numbers are compared as numbers. -/
def same : Literal → Literal → Bool
  | number x, number y => x.same y
  | string x, string y => x = y
  | char x, char y => x = y
  | boolean x, boolean y => x = y
  | _, _ => false

end Literal

end SurfaceGrammar

import SurfaceGrammar.Text.Printable

/-!
# Quoted text

Messages quote the text that they are about. A quoted text stands between two marks; the
backslash, the mark itself and the characters NUL, tab, line feed and carriage return have
short escapes, and every other character that a reader could not see is written by its
code point in hexadecimal.

* `Quoted.text`: a text between double quotes.
* `Quoted.char`: a character between single quotes.
-/

namespace SurfaceGrammar.Quoted

/-- A number in lower-case hexadecimal, without leading zeros. -/
def hex (n : Nat) : List Char :=
  Nat.toDigits 16 n

/-- A character as it stands between two marks. -/
def escape (mark c : Char) : List Char :=
  if c = '\x00' then ['\\', '0']
  else if c = '\t' then ['\\', 't']
  else if c = '\r' then ['\\', 'r']
  else if c = '\n' then ['\\', 'n']
  else if c = '\\' then ['\\', '\\']
  else if c = mark then ['\\', mark]
  else if isShown c then [c]
  else '\\' :: 'u' :: '{' :: hex c.toNat ++ ['}']

/-- A text between double quotes. -/
def text (s : String) : String :=
  String.ofList ('"' :: s.toList.flatMap (escape '"') ++ ['"'])

/-- A character between single quotes. -/
def char (c : Char) : String :=
  String.ofList ('\'' :: escape '\'' c ++ ['\''])

end SurfaceGrammar.Quoted

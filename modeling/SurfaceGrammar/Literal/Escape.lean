import SurfaceGrammar.Error

/-!
# Escapes in literals

The body of a string or char literal stands for a text. A character other than the
backslash stands for itself; a backslash begins one of the escapes `\\`, `\"`, `\'`, `\n`,
`\t` and `\xHH`, where `HH` are two hexadecimal digits that give a code point below 256.

* `Escape.decode`: the text of a body, or the first escape that is none, with its offset.
* `Escape.decodeAt`: the same with the error placed in a source.
-/

namespace SurfaceGrammar.Escape

/-- A beginning of a body that looks like an escape but is none. -/
structure Invalid where
  text : List Char
  /-- The number of bytes of the body before it. -/
  index : Nat
deriving DecidableEq

/-- The character that a backslash and this character stand for. -/
def simple? : Char → Option Char
  | '\\' => some '\\'
  | '"' => some '"'
  | '\'' => some '\''
  | 'n' => some '\n'
  | 't' => some '\t'
  | _ => none

/-- Whether the character is a hexadecimal digit. -/
def isHexDigit (c : Char) : Bool :=
  c.isDigit || ('a' ≤ c && c ≤ 'f') || ('A' ≤ c && c ≤ 'F')

/-- The value of a hexadecimal digit. -/
def hexValue (c : Char) : Nat :=
  if c.isDigit then c.toNat - '0'.toNat
  else if c ≤ 'F' then c.toNat - 'A'.toNat + 10
  else c.toNat - 'a'.toNat + 10

/-- The text of a body, of which `index` bytes were read before. -/
def decodeFrom (index : Nat) : List Char → Except Invalid (List Char)
  | [] => .ok []
  | c :: body =>
    if c ≠ '\\' then (c :: ·) <$> decodeFrom (index + c.utf8Size) body
    else
      match body with
      | [] => .error ⟨['\\'], index⟩
      | e :: body =>
        if e = 'x' then
          match body with
          | [] => .error ⟨['\\', 'x'], index⟩
          | high :: body =>
            if isHexDigit high then
              match body with
              | [] => .error ⟨['\\', 'x', high], index⟩
              | low :: body =>
                if isHexDigit low then
                  (Char.ofNat (16 * hexValue high + hexValue low) :: ·) <$>
                    decodeFrom (index + 4) body
                else .error ⟨['\\', 'x', high], index⟩
            else .error ⟨['\\', 'x'], index⟩
        else
          match simple? e with
          | some value => (value :: ·) <$> decodeFrom (index + 2) body
          | none => .error ⟨['\\', e], index⟩

/-- The text of a body. -/
def decode (body : List Char) : Except Invalid (List Char) :=
  decodeFrom 0 body

/-- The text of a body that begins at an offset of a source. -/
def decodeAt (body : String) (offset : Nat) (file : String) : Except Error String :=
  match decode body.toList with
  | .ok text => .ok (String.ofList text)
  | .error invalid =>
    .error ⟨.invalidEscape (String.ofList invalid.text),
      Position.ofOffset (offset + invalid.index) file⟩

end SurfaceGrammar.Escape

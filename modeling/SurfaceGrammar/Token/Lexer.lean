import SurfaceGrammar.Token.Scanner

/-!
# A lexer with a movable cursor

A lexer gives out the tokens of a source one at a time. One token can be looked at before
it is taken. A caller may also move the cursor forward by a number of bytes, even into a
character or past the end of the source; no token can be read from inside a character. The
cursor has 64 bits, and no move can bring it further.

* `Lexer.next?`: takes the next token.
* `Lexer.peek?`: looks at the next token.
* `Lexer.advance?`: moves the cursor forward.
* `Lexer.emit?`: makes a token of the next bytes.
* `Lexer.remainder?`: the text after the cursor.
-/

namespace SurfaceGrammar

/-- A source, a cursor in it and the token that was looked at last. -/
structure Lexer where
  file : String
  scanner : Scanner
  /-- The number of bytes from the scanner to the cursor: less than the size of the
  character in between, or any number past the end of the source. -/
  beyond : Nat := 0
  peeked : Option Token := none

namespace Lexer

/-- The lexer before the first character of a source. -/
def ofSource (source file : String) : Lexer where
  file := file
  scanner := Scanner.ofSource source

/-- The number of bytes before the cursor. -/
def cursor (lexer : Lexer) : Nat :=
  lexer.scanner.offset + lexer.beyond

/-- The position of the cursor. -/
def position (lexer : Lexer) : Position :=
  Position.ofOffset lexer.cursor lexer.file

/-- Whether the cursor is at the end of the source or past it. -/
def atEnd (lexer : Lexer) : Bool :=
  lexer.scanner.atEnd

/-- The text after the cursor, unless the cursor is inside a character or past the end. -/
def remainder? (lexer : Lexer) : Option String :=
  if lexer.beyond = 0 then some (String.ofList lexer.scanner.rest) else none

/-- The lexer with its cursor moved forward by a number of bytes. -/
def advanced (lexer : Lexer) (count : Nat) : Lexer :=
  let (beyond, rest) := Utf8.drop (lexer.beyond + count) lexer.scanner.rest
  { lexer with
    scanner := { lexer.scanner with rest, offset := lexer.cursor + count - beyond }
    beyond }

/-- Whether the cursor still has 64 bits after a move forward. -/
def canAdvance (lexer : Lexer) (count : Nat) : Bool :=
  lexer.cursor + count < UInt64.size

/-- Moves the cursor forward by a number of bytes, unless it would need more than 64 bits. -/
def advance? (lexer : Lexer) (count : Nat) : Option Lexer :=
  if lexer.canAdvance count then some (lexer.advanced count) else none

/-- Makes a token of the next bytes and moves the cursor past them, unless it would need more
than 64 bits. -/
def emit? (lexer : Lexer) (kind : TokenKind) (value : String) (count : Nat) :
    Option (Token × Lexer) :=
  if lexer.canAdvance count then
    let stop := Position.ofOffset (lexer.cursor + count) lexer.file
    let token : Token :=
      { kind, value, span := ⟨lexer.position, stop⟩, newlineBefore := lexer.scanner.lineBreak }
    let moved := lexer.advanced count
    some (token,
      { moved with
        scanner := { moved.scanner with lineBreak := false, afterValue := token.endsValue } })
  else none

/-- Reads a token at the cursor, unless the cursor is inside a character. Past the end of
the source stands the token for its end. -/
def scan? (lexer : Lexer) : Option (Except Error Token × Lexer) :=
  if lexer.beyond = 0 then
    match lexer.scanner.scan lexer.file with
    | .token token scanner => some (.ok token, { lexer with scanner })
    | .ended token scanner => some (.ok token, { lexer with scanner })
    | .failed error scanner => some (.error error, { lexer with scanner })
  else if lexer.atEnd then
    let scanner := { lexer.scanner with offset := lexer.cursor }
    some (.ok (scanner.endToken lexer.file), lexer)
  else none

/-- Takes the next token. There is none inside a character. -/
def next? (lexer : Lexer) : Option (Except Error Token × Lexer) :=
  match lexer.peeked with
  | some token => some (.ok token, { lexer with peeked := none })
  | none => lexer.scan?

/-- Looks at the next token, which stays the next one. There is none inside a character. -/
def peek? (lexer : Lexer) : Option (Except Error Token × Lexer) :=
  match lexer.peeked with
  | some token => some (.ok token, lexer)
  | none =>
    match lexer.scan? with
    | some (.ok token, lexer) => some (.ok token, { lexer with peeked := some token })
    | other => other

end Lexer

end SurfaceGrammar

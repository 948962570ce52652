import SurfaceGrammar.Source.Line
import SurfaceGrammar.Source.Position
import SurfaceGrammar.Text.Quoted
import SurfaceGrammar.Token.Kind

/-!
# Errors

An error is a cause at a position. The first five causes arise while a source is cut into
tokens, the others while the tokens are put together.

* `ErrorKind`: the causes, with the text that each is about.
* `Error.message`: the error in one line.
* `ErrorKind.tip?`: what a diagnostic adds to the name of the error.
* `Error.lineColumn?`: the line and the column of the error.
-/

namespace SurfaceGrammar

/-- What is wrong with a source. -/
inductive ErrorKind where
  | unrecognisedToken (token : String)
  | invalidEscape (escape : String)
  | unterminatedLiteral (delimiter : Char)
  | unterminatedComment
  | invalidCharLiteral (literal : String)
  | unexpectedToken (token : String) (expected : List TokenKind)
  | unexpectedEndOfInput (expected : List TokenKind)
  | numberParseError (token : String)
  | missingElseBranch
deriving DecidableEq, Inhabited

namespace ErrorKind

/-- The name of the cause. -/
def name : ErrorKind → String
  | unrecognisedToken _ => "UnrecognisedToken"
  | invalidEscape _ => "InvalidEscape"
  | unterminatedLiteral _ => "UnterminatedLiteral"
  | unterminatedComment => "UnterminatedComment"
  | invalidCharLiteral _ => "InvalidCharLiteral"
  | unexpectedToken _ _ => "UnexpectedToken"
  | unexpectedEndOfInput _ => "UnexpectedEndOfInput"
  | numberParseError _ => "NumberParseError"
  | missingElseBranch => "MissingElseBranch"

/-- The cause in one line. -/
def message : ErrorKind → String
  | unrecognisedToken token => "unrecognised token: " ++ Quoted.text token
  | invalidEscape escape => "invalid escape sequence: " ++ Quoted.text escape
  | unterminatedLiteral delimiter =>
    "unterminated literal, missing closing " ++ Quoted.char delimiter
  | unterminatedComment => "unterminated block comment"
  | invalidCharLiteral literal =>
    "char literal must hold exactly one character: " ++ literal
  | unexpectedToken token expected =>
    "unexpected token: " ++ Quoted.text token ++ ", expected [" ++ TokenKind.names expected ++ "]"
  | unexpectedEndOfInput expected =>
    "unexpected end of input, expected [" ++ TokenKind.names expected ++ "]"
  | numberParseError token => "error parsing number: " ++ Quoted.text token
  | missingElseBranch => "if-expression in value position has no else branch"

/-- What a diagnostic adds to the name of the cause. -/
def tip? : ErrorKind → Option String
  | unrecognisedToken _ => none
  | invalidEscape escape =>
    some ("Invalid escape `" ++ escape
      ++ "`, supported escapes are \\\\ \\\" \\' \\n \\t and \\xHH")
  | unterminatedLiteral delimiter =>
    some ("Literal is missing its closing `" ++ String.singleton delimiter
      ++ "` before the end of the line")
  | unterminatedComment => some "Block comment is missing its closing `*/`"
  | invalidCharLiteral literal =>
    some ("Char literal " ++ literal ++ " must contain exactly one character")
  | unexpectedToken token [] => some ("Unexpected token: `" ++ token ++ "`")
  | unexpectedToken token expected =>
    some ("Unexpected token: `" ++ token ++ "`, expected one of: " ++ TokenKind.names expected)
  | unexpectedEndOfInput expected =>
    some ("Input ended early, expected one of: " ++ TokenKind.names expected)
  | numberParseError token => some ("Invalid number: `" ++ token ++ "`")
  | missingElseBranch => some "An `if` whose value is used needs an `else` branch"

/-- The kinds of tokens that would have been accepted. -/
def expected : ErrorKind → List TokenKind
  | unexpectedToken _ expected => expected
  | unexpectedEndOfInput expected => expected
  | _ => []

/-- Whether the cause arises while a source is cut into tokens. -/
def isLexical : ErrorKind → Bool
  | unrecognisedToken _ | invalidEscape _ | unterminatedLiteral _ | unterminatedComment
  | invalidCharLiteral _ => true
  | _ => false

end ErrorKind

/-- A cause at a position. -/
structure Error where
  kind : ErrorKind
  position : Position
deriving DecidableEq, Inhabited

namespace Error

/-- The cause and the position in one line. -/
def message (error : Error) : String :=
  error.kind.message ++ " at " ++ error.position.text

/-- The line and the column of the error, both counted from 1. The column counts
characters, or bytes if the error lies inside a character. -/
def lineColumn? (error : Error) (source : String) : Option (Nat × Nat) :=
  (lineAt? source error.position.offset.toNat).map fun line =>
    match Utf8.split line.column line.text with
    | some (before, _) => (line.number, before.length + 1)
    | none => (line.number, line.column + 1)

end Error

end SurfaceGrammar

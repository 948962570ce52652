import SurfaceGrammar.Literal.Escape
import SurfaceGrammar.Text.Whitespace

/-!
# Lexemes

The rules by which the beginning of a text is read as one piece: white space or a comment,
which only separate tokens, or the text of a token.

* `Trivia.take?`: a white space character or a comment at the beginning of a text.
* `Lexeme.recognise`: the token at the beginning of a text, with the characters it takes.
* `symbols`: the operators and the punctuation marks, longer spellings first.
-/

namespace SurfaceGrammar

/-! ## White space and comments -/

namespace Trivia

/-- The text up to the first `*/`, which it includes. -/
def throughCommentEnd? : List Char → Option (List Char)
  | [] => none
  | '*' :: '/' :: _ => some ['*', '/']
  | c :: text => (throughCommentEnd? text).map (c :: ·)

/-- The white space character or the comment at the beginning of a text. A line comment
ends before the line feed, a block comment with the first `*/` after its `/*`. -/
def take? : List Char → Option (List Char)
  | [] => none
  | '/' :: '/' :: text => some ('/' :: '/' :: text.takeWhile (· ≠ '\n'))
  | '/' :: '*' :: text => (throughCommentEnd? text).map ('/' :: '*' :: ·)
  | c :: _ => if isWhitespace c then some [c] else none

end Trivia

/-! ## The texts of tokens -/

/-- The operators and the punctuation marks. A spelling stands before those that it begins
with. -/
def symbols : List (List Char × TokenKind) :=
  [(['=', '='], .equals), (['!', '='], .notEquals), (['<', '='], .lessEquals),
    (['>', '='], .greaterEquals), (['<', ':'], .subtype), (['<', '-'], .leftArrow),
    (['-', '>'], .arrow), (['+', '='], .plusEquals), (['-', '='], .minusEquals),
    (['*', '='], .starEquals), (['/', '='], .slashEquals), (['%', '='], .percentEquals),
    (['^', '='], .caretEquals), (['<'], .less), (['>'], .greater), (['='], .assignment),
    (['+'], .plus), (['-'], .dash), (['*'], .star), (['/'], .slash), (['%'], .percent),
    (['^'], .caret), (['&'], .ampersand), (['|'], .pipe), (['.'], .dot), (['$'], .dollar),
    (['#'], .hash), (['?'], .question), ([':'], .colon), ([';'], .semicolon), ([','], .comma),
    (['('], .openParen), ([')'], .closeParen), (['['], .openBracket), ([']'], .closeBracket),
    (['{'], .openCurly), (['}'], .closeCurly)]

/-- The text of a token together with its meaning. -/
structure Lexeme where
  kind : TokenKind
  value : String
  /-- The characters that the token takes. -/
  text : List Char
deriving DecidableEq

namespace Lexeme

/-- Why a text does not begin with a token. -/
structure Fault where
  kind : ErrorKind
  /-- The number of bytes of the text before the fault. -/
  index : Nat
deriving DecidableEq

/-- Whether a name can begin with the character. -/
def startsName (c : Char) : Bool :=
  c.isAlpha || c = '_'

/-- Whether a name can go on with the character. -/
def continuesName (c : Char) : Bool :=
  c.isAlphanum || c = '_'

/-- The number without a sign at the beginning of a text: digits, and a fraction if a point
and a digit follow them. -/
def unsigned? (text : List Char) : Option (List Char) :=
  match text.takeWhile Char.isDigit with
  | [] => none
  | whole =>
    match text.drop whole.length with
    | '.' :: text =>
      match text.takeWhile Char.isDigit with
      | [] => some whole
      | fraction => some (whole ++ '.' :: fraction)
    | _ => some whole

/-- The body of a literal up to its closing quote, which stands on the same line. A
backslash takes the next character along. -/
def body? (quote : Char) : List Char → Option (List Char)
  | [] => none
  | c :: text =>
    if c = quote then some []
    else if c = '\n' then none
    else if c = '\\' then
      match text with
      | [] => none
      | e :: text => if e = '\n' then none else (body? quote text).map fun body => c :: e :: body
    else (body? quote text).map (c :: ·)

/-- The literal between quotes that begins after its opening quote. -/
def quoted (kind : TokenKind) (quote : Char) (text : List Char) : Except Fault Lexeme :=
  match body? quote text with
  | none => .error ⟨.unterminatedLiteral quote, 0⟩
  | some body =>
    match Escape.decode body with
    | .error invalid => .error ⟨.invalidEscape (String.ofList invalid.text), 1 + invalid.index⟩
    | .ok value =>
      let literal := quote :: body ++ [quote]
      if kind = .char ∧ value.length ≠ 1 then
        .error ⟨.invalidCharLiteral (String.ofList literal), 0⟩
      else .ok ⟨kind, String.ofList value, literal⟩

/-- The operator or punctuation mark at the beginning of a text. -/
def symbol (c : Char) (text : List Char) : Except Fault Lexeme :=
  match symbols.find? fun (spelling, _) => spelling.isPrefixOf (c :: text) with
  | some (spelling, kind) => .ok ⟨kind, String.ofList spelling, spelling⟩
  | none => .error ⟨.unrecognisedToken (String.singleton c), 0⟩

/-- The token that a text begins with. The text does not begin with white space or a
complete comment. A minus before a digit is an operator after a value and a sign elsewhere. -/
def recognise (afterValue : Bool) (c : Char) (text : List Char) : Except Fault Lexeme :=
  if startsName c then
    let name := c :: text.takeWhile continuesName
    .ok ⟨.identifier, String.ofList name, name⟩
  else if c = '"' then quoted .string '"' text
  else if c = '\'' then quoted .char '\'' text
  else if c = '/' ∧ text.head? = some '*' then .error ⟨.unterminatedComment, 0⟩
  else if c = '-' then
    match unsigned? text with
    | some digits =>
      if afterValue then .ok ⟨.dash, "-", ['-']⟩
      else .ok ⟨.number, String.ofList ('-' :: digits), '-' :: digits⟩
    | none => symbol c text
  else
    match unsigned? (c :: text) with
    | some digits => .ok ⟨.number, String.ofList digits, digits⟩
    | none => symbol c text

end Lexeme

end SurfaceGrammar

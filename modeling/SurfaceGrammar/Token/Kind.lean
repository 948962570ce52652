/-!
# Kinds of tokens

* `TokenKind`: what a token is, apart from its text.
* `TokenKind.name`: the name of a kind in messages.
* `TokenKind.isUpdater`: the kinds of the operators that change a binding.
-/

namespace SurfaceGrammar

/-- What a token is, apart from its text. -/
inductive TokenKind where
  | eof
  | number
  | string
  | char
  | identifier
  | openBracket
  | closeBracket
  | openCurly
  | closeCurly
  | openParen
  | closeParen
  | assignment
  | equals
  | notEquals
  | less
  | lessEquals
  | greater
  | greaterEquals
  | subtype
  | plus
  | dash
  | ampersand
  | pipe
  | star
  | slash
  | percent
  | caret
  | leftArrow
  | plusEquals
  | minusEquals
  | starEquals
  | slashEquals
  | percentEquals
  | caretEquals
  | dot
  | dollar
  | hash
  | question
  | arrow
  | colon
  | semicolon
  | comma
deriving DecidableEq, Inhabited

namespace TokenKind

/-- Every kind once, in the order of the declaration. -/
def all : List TokenKind :=
  [eof, number, string, char, identifier, openBracket, closeBracket, openCurly, closeCurly,
    openParen, closeParen, assignment, equals, notEquals, less, lessEquals, greater,
    greaterEquals, subtype, plus, dash, ampersand, pipe, star, slash, percent, caret,
    leftArrow, plusEquals, minusEquals, starEquals, slashEquals, percentEquals, caretEquals,
    dot, dollar, hash, question, arrow, colon, semicolon, comma]

/-- The name of a kind in messages. -/
def name : TokenKind → String
  | eof => "EOF"
  | number => "Number"
  | string => "String"
  | char => "Char"
  | identifier => "Identifier"
  | openBracket => "OpenBracket"
  | closeBracket => "CloseBracket"
  | openCurly => "OpenCurly"
  | closeCurly => "CloseCurly"
  | openParen => "OpenParen"
  | closeParen => "CloseParen"
  | assignment => "Assignment"
  | equals => "Equals"
  | notEquals => "NotEquals"
  | less => "Less"
  | lessEquals => "LessEquals"
  | greater => "Greater"
  | greaterEquals => "GreaterEquals"
  | subtype => "Subtype"
  | plus => "Plus"
  | dash => "Dash"
  | ampersand => "Ampersand"
  | pipe => "Pipe"
  | star => "Star"
  | slash => "Slash"
  | percent => "Percent"
  | caret => "Caret"
  | leftArrow => "LeftArrow"
  | plusEquals => "PlusEquals"
  | minusEquals => "MinusEquals"
  | starEquals => "StarEquals"
  | slashEquals => "SlashEquals"
  | percentEquals => "PercentEquals"
  | caretEquals => "CaretEquals"
  | dot => "Dot"
  | dollar => "Dollar"
  | hash => "Hash"
  | question => "Question"
  | arrow => "Arrow"
  | colon => "Colon"
  | semicolon => "Semicolon"
  | comma => "Comma"

theorem mem_all (kind : TokenKind) : kind ∈ all := by
  cases kind <;> decide

/-- The kind with a given name. -/
def ofName? (text : String) : Option TokenKind :=
  all.find? fun kind => kind.name == text

/-- Whether the kind is that of an operator that changes a binding. -/
def isUpdater : TokenKind → Bool
  | leftArrow | plusEquals | minusEquals | starEquals | slashEquals | percentEquals
  | caretEquals => true
  | _ => false

/-- The names of a list of kinds, separated by commas. -/
def names (kinds : List TokenKind) : String :=
  String.intercalate ", " (kinds.map name)

end TokenKind

end SurfaceGrammar

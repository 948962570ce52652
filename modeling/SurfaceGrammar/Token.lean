import SurfaceGrammar.Source.Position
import SurfaceGrammar.Token.Kind

/-!
# Tokens

A token is a piece of the source with a meaning of its own. Keywords are not a kind: they
are identifiers, and whether one acts as a keyword depends on where it stands.

* `Token.keyword?`: the keyword that an identifier spells.
* `Token.endsValue`: whether a minus right after the token is an operator.
* `Token.describe`: the token in the words of a diagnostic.
-/

namespace SurfaceGrammar

/-- The words that have a special meaning in some places. -/
inductive Keyword where
  | «if»
  | «then»
  | «else»
  | fn
  | type
  | «do»
  | scope
  | set
  | map
  | true
  | false
deriving DecidableEq, Inhabited

namespace Keyword

/-- Every keyword once. -/
def all : List Keyword :=
  [.if, .then, .else, .fn, .type, .do, .scope, .set, .map, .true, .false]

/-- The spelling of a keyword in a source. -/
def spelling : Keyword → String
  | .if => "if"
  | .then => "then"
  | .else => "else"
  | .fn => "fn"
  | .type => "type"
  | .do => "do"
  | .scope => "scope"
  | .set => "set"
  | .map => "map"
  | .true => "true"
  | .false => "false"

/-- The name of a keyword in messages. -/
def name : Keyword → String
  | .if => "If"
  | .then => "Then"
  | .else => "Else"
  | .fn => "Fn"
  | .type => "Type"
  | .do => "Do"
  | .scope => "Scope"
  | .set => "Set"
  | .map => "Map"
  | .true => "True"
  | .false => "False"

/-- The keyword with a given spelling. -/
def ofSpelling? (text : String) : Option Keyword :=
  all.find? fun keyword => keyword.spelling == text

theorem ofSpelling?_spelling (keyword : Keyword) :
    ofSpelling? keyword.spelling = some keyword := by
  cases keyword <;> decide

theorem ofSpelling?_eq_some_iff {text : String} {keyword : Keyword} :
    ofSpelling? text = some keyword ↔ text = keyword.spelling := by
  constructor
  · intro h
    have := List.find?_some h
    exact (beq_iff_eq.mp this).symm
  · rintro rfl
    exact ofSpelling?_spelling keyword

end Keyword

/-- A piece of the source with a meaning of its own. -/
structure Token where
  kind : TokenKind
  /-- The text in the source, or the decoded text of a string or char literal. -/
  value : String
  span : Span
  /-- Whether a line break stands between the previous token and this one. -/
  newlineBefore : Bool
deriving DecidableEq, Inhabited

namespace Token

/-- The keyword that the token spells, if it is an identifier that spells one. -/
def keyword? (token : Token) : Option Keyword :=
  if token.kind = .identifier then Keyword.ofSpelling? token.value else none

/-- Whether the token spells the keyword. -/
def isKeyword (token : Token) (keyword : Keyword) : Bool :=
  token.keyword? = some keyword

/-- Whether a minus right after the token is an operator and not the sign of a number. -/
def endsValue (token : Token) : Bool :=
  match token.kind with
  | .identifier =>
    !(token.isKeyword .if || token.isKeyword .then || token.isKeyword .else)
  | .number | .string | .char | .closeParen | .closeBracket | .closeCurly | .dot | .dollar
  | .hash | .question => true
  | _ => false

/-- The token in the words of a diagnostic. -/
def describe (token : Token) : String :=
  match token.kind with
  | .eof => "end of input"
  | .string => "\"" ++ token.value ++ "\""
  | .char => "'" ++ token.value ++ "'"
  | _ => token.value

/-- The kind and the value of the token, on a line each. -/
def text (token : Token) : String :=
  "Token \x7b\nkind: " ++ token.kind.name ++ ",\nvalue: " ++ token.value ++ "\x7d"

end Token

end SurfaceGrammar

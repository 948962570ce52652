import SurfaceGrammar.Token.Kind
import SurfaceGrammar.Tree.Basic

/-!
# Rules of a grammar

Which production reads an expression is decided by the kind of its first token, and which
one reads on after an expression by the kind of the next token. Both decisions are tables,
which a caller may change.

* `PrimaryRule`, `InfixRule`: the productions that a table can name.
* `Rules.standard`: the tables of the language.
* `Rules.bare`: empty tables.
* `Settings`: what else a caller decides.
-/

namespace SurfaceGrammar

/-- The productions that read an expression from its first token on. -/
inductive PrimaryRule where
  /-- A number, string or char literal. -/
  | literal
  /-- A label, a truth value, or an expression that begins with a keyword. -/
  | label
  | sequence (form : SequenceForm)
  | mapping
  | object
  | function
  | declaration
  | update
  | conditional (valueRequired : Bool)
  | block (kind : BlockKind)
  /-- An expression in the place of a statement. -/
  | statementExpr (valueRequired : Bool)
deriving DecidableEq, Inhabited

/-- The productions that read on after an expression. -/
inductive InfixRule where
  | binary
  | call
  | member
  | suffix
  /-- All calls, members and suffixes that follow. -/
  | suffixChain
deriving DecidableEq, Inhabited

/-- The tables of a grammar. -/
structure Rules where
  /-- The production for an expression that begins with a token of the kind. -/
  primary? : TokenKind → Option PrimaryRule
  /-- The production for an operator of the kind, with its power. -/
  operator? : TokenKind → Option (Power × InfixRule)

namespace Rules

/-- Empty tables. -/
def bare : Rules where
  primary? _ := none
  operator? _ := none

/-- The production of the language for an expression that begins with a token of the
kind. -/
def standardPrimary? : TokenKind → Option PrimaryRule
  | .number | .string | .char => some .literal
  | .identifier => some .label
  | .openParen => some (.sequence .tuple)
  | .openBracket => some (.sequence .array)
  | .openCurly => some .object
  | _ => none

/-- The tables of the language: every binary operator with its power. -/
def standard : Rules where
  primary? := standardPrimary?
  operator? kind := (BinaryOperator.ofKind? kind).map fun operator => (operator.level, .binary)

/-- Tables with another production for expressions that begin with the kind. -/
def setPrimary (rules : Rules) (kind : TokenKind) (rule : PrimaryRule) : Rules :=
  { rules with primary? := fun other => if other = kind then some rule else rules.primary? other }

/-- Tables with another production and power for operators of the kind. -/
def setInfix (rules : Rules) (kind : TokenKind) (power : Power) (rule : InfixRule) : Rules :=
  { rules with
    operator? := fun other => if other = kind then some (power, rule) else rules.operator? other }

/-- Tables with the entries of the language in front of their own. -/
def withStandard (rules : Rules) : Rules where
  primary? kind := (standard.primary? kind).or (rules.primary? kind)
  operator? kind := (standard.operator? kind).or (rules.operator? kind)

end Rules

/-- The kinds of tokens that an expression of the language begins with. -/
def expressionStart : List TokenKind :=
  [.number, .string, .char, .identifier, .openParen, .openBracket, .openCurly]

/-- What a caller decides about a parse. -/
structure Settings where
  /-- The name of the source, if it has one. -/
  file? : Option String := none
  /-- Whether a conditional whose value is used must have a branch for the other case. -/
  elseRequired : Bool := false
deriving DecidableEq, Inhabited

/-- The name of a source, which is `shell` if no name was given. -/
def Settings.file (settings : Settings) : String :=
  settings.file?.getD "shell"

end SurfaceGrammar

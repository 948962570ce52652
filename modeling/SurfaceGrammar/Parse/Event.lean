import SurfaceGrammar.Text.Quoted
import SurfaceGrammar.Token
import SurfaceGrammar.Tree.Operator

/-!
# Records of a parse

A parse leaves a record of what it does: every token that is read, every production that is
tried, and the end of a parse that succeeds.

* `Event`: what is recorded.
* `Event.level`, `Event.message`: a record as it is shown.
-/

namespace SurfaceGrammar

/-- What a parse records. -/
inductive Event where
  /-- A token was read from the source. -/
  | lexed (token : Token)
  /-- A production begins at a token of this kind. -/
  | statement (current : TokenKind)
  | statementExpr (current : TokenKind)
  | expr (power : Power) (current : TokenKind)
  | function (current : TokenKind)
  | conditional (valueRequired : Bool)
  | declaration (label : String)
  | update (label : String)
  | block (kind : BlockKind)
  /-- A block with this many statements was read. -/
  | blockBody (count : Nat)
  /-- A whole source with this many statements was read. -/
  | finished (count : Nat) (file : String)
deriving DecidableEq

namespace Event

/-- How important a record is. -/
def level : Event → String
  | finished _ _ => "DEBUG"
  | _ => "TRACE"

/-- The text of a record. -/
def message : Event → String
  | lexed token =>
    "lexed " ++ token.kind.name ++ " " ++ Quoted.text token.value ++ " at "
      ++ toString token.span.start.offset.toNat
  | statement current => "parse_stmt: current token = " ++ current.name
  | statementExpr current => "parse_stmt_expr: current token = " ++ current.name
  | expr power current =>
    "parse_expr(" ++ power.name ++ "): current token = " ++ current.name
  | function current => "parse_function_expr: current token = " ++ current.name
  | conditional valueRequired =>
    "parse_if_expr(value_required = " ++ toString valueRequired ++ ")"
  | declaration label => "parse_declaration_expr: label = " ++ Quoted.text label
  | update label => "parse_update_expr: label = " ++ Quoted.text label
  | block kind => "parse_block_expr(" ++ kind.word ++ ")"
  | blockBody count => "parse_block_body: " ++ toString count ++ " statements"
  | finished count file =>
    "parsed " ++ toString count ++ " top-level statements from " ++ file

end Event

end SurfaceGrammar

import SurfaceGrammar.Parse.Descent

/-!
# Statements and blocks

A statement is an expression or the definition of a type. It ends at a semicolon, at a line
break, or where the list of statements ends. A block is a list of statements between curly
brackets; line breaks mean something in it, wherever the block stands.

* `Parse.statement`: a statement with its end.
* `Parse.statements`: the statements up to a token of a kind.
* `Parse.blockBody`: the statements of a block.
-/

namespace SurfaceGrammar.Parse

variable {watch : Watch}

/-- Whether a type definition begins: the word `type` and a name on the same line. -/
def beginsTypeDefinition : Parse Bool := do
  if (← current).isKeyword .type then
    let next ← peek
    return next.kind = .identifier && !next.newlineBefore
  else
    return false

/-- A type definition: `type Name = definition`. -/
def typeDefinition (down : Descent watch) : Parse (Stmt Span) := do
  let start := (← advance).span.start
  let name := (← expect .identifier).value
  let _ ← expect .assignment
  let definition ← down.expr .default
  return .typeDefinition name definition (← spanFrom start)

/-- The end of a statement. Only a semicolon is passed. -/
def terminator (close : TokenKind) : Parse Unit := do
  let token ← current
  if token.kind = .semicolon then
    let _ ← advance
    return ()
  else if token.kind = close ∨ token.kind = .eof ∨ token.newlineBefore then
    return ()
  else
    unexpected [.semicolon, close]

/-- A statement without its end. -/
def statementContent (down : Descent watch) : Parse (Stmt Span) := do
  if ← beginsTypeDefinition then
    typeDefinition down
  else
    Stmt.expression <$> down.statementExpr false

/-- A statement with its end, in a list that a token of the kind `close` ends. -/
def statement (down : Descent watch) (close : TokenKind) : Parse (Stmt Span) := do
  watch.atStatement
  record (.statement (← currentKind))
  let content ← statementContent down
  terminator close
  return content

/-- The statements up to a token of the kind `close`, which is not passed. Semicolons may
stand before, between and after them. -/
def statements (down : Descent watch) (close : TokenKind) : Nat → Parse (List (Stmt Span))
  | 0 => throw .exhausted
  | bound + 1 => do
    if ← standsAt .semicolon then
      let _ ← advance
      statements down close bound
    else if ← standsAt close then
      return []
    else if ← standsAt .eof then
      unexpected [close]
    else
      let first ← statement down close
      let rest ← statements down close bound
      return first :: rest

/-- The statements between curly brackets. The depth of open delimiters is restored even if
a statement fails. -/
def blockBody (down : Descent watch) : Parse (List (Stmt Span)) := do
  let _ ← expect .openCurly
  let depth ← enterBlock
  let body ← andFinally (statements down .closeCurly down.bound) (exitBlock depth)
  let _ ← expect .closeCurly
  record (.blockBody body.length)
  return body

end SurfaceGrammar.Parse

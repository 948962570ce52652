import SurfaceGrammar.Parse.Statement

/-!
# Composite expressions

The expressions with delimiters of their own: tuples, arrays, sets, maps, objects, functions
and blocks.

* `Parse.tuple`, `Parse.array`, `Parse.set`, `Parse.mapping`, `Parse.object`: the literals.
* `Parse.function`: a function with its parameters, return type and body.
* `Parse.block`: a block of statements that is opened with a word.
-/

namespace SurfaceGrammar.Parse

variable {watch : Watch}

/-- A tuple, or an expression in parentheses if there is one element and no comma. -/
def tuple (down : Descent watch) : Parse (Expr Span) := do
  let start := (← expect .openParen).span.start
  let list ← watchedDelimited watch down.bound .closeParen (down.expr .default)
  match list.elements, list.trailingComma with
  | [inner], false => return inner
  | elements, _ => return .sequence .tuple elements ⟨start, list.closing.span.stop⟩

/-- An array: elements between square brackets. -/
def array (down : Descent watch) : Parse (Expr Span) := do
  let start := (← expect .openBracket).span.start
  let list ← watchedDelimited watch down.bound .closeBracket (down.expr .default)
  return .sequence .array list.elements ⟨start, list.closing.span.stop⟩

/-- A set: a word, and elements between curly brackets. -/
def set (down : Descent watch) : Parse (Expr Span) := do
  let start := (← expect .identifier).span.start
  let _ ← expect .openCurly
  let list ← watchedDelimited watch down.bound .closeCurly (down.expr .default)
  return .sequence .set list.elements ⟨start, list.closing.span.stop⟩

/-- A key, a colon and a value. -/
def entry (down : Descent watch) : Parse (Entry Span) := do
  let key ← down.expr .default
  let _ ← expect .colon
  let value ← down.expr .default
  return ⟨key, value, key.mark.join value.mark⟩

/-- A map: a word, and entries between curly brackets. -/
def mapping (down : Descent watch) : Parse (Expr Span) := do
  let start := (← expect .identifier).span.start
  let _ ← expect .openCurly
  let list ← watchedDelimited watch down.bound .closeCurly (entry down)
  return .mapping list.elements ⟨start, list.closing.span.stop⟩

/-- A label, a colon and a value. -/
def field (down : Descent watch) : Parse (Field Span) := do
  let label ← expect .identifier
  let _ ← expect .colon
  let value ← down.expr .default
  return ⟨label.value, value, label.span.join value.mark⟩

/-- An object: fields between curly brackets. -/
def object (down : Descent watch) : Parse (Expr Span) := do
  let start := (← expect .openCurly).span.start
  let list ← watchedDelimited watch down.bound .closeCurly (field down)
  return .object list.elements ⟨start, list.closing.span.stop⟩

/-- A colon and a type, if there is a colon. -/
def typeAfterColon (down : Descent watch) : Parse (Option (Expr Span)) := do
  if ← standsAt .colon then
    let _ ← advance
    let type ← down.expr .default
    return some type
  else
    return none

/-- A parameter: a label, with a type or without. -/
def parameter (down : Descent watch) : Parse (Parameter Span) := do
  let label ← expect .identifier
  let type ← typeAfterColon down
  return ⟨label.value, type, ← spanFrom label.span.start⟩

/-- The name of a function, if it has one. -/
def functionName : Parse (Option String) := do
  if ← standsAt .identifier then
    return some (← advance).value
  else
    return none

/-- The body of a function: an arrow and an expression, or a block. -/
def functionBody (down : Descent watch) (typed : Bool) : Parse (Body Span) := do
  match ← currentKind with
  | .arrow =>
    let _ ← advance
    Body.arrow <$> down.statementExpr true
  | .openCurly => Body.block <$> blockBody down
  | _ =>
    unexpected (if typed then [.arrow, .openCurly] else [.colon, .arrow, .openCurly])

/-- A function: `fn name (parameters) : type { statements }`, where the name and the type
may be left out and the body may be an arrow with an expression. Words that open a block,
a set or a map are plain labels in the return type, so that the bracket after it opens the
body. -/
def function (down : Descent watch) : Parse (Expr Span) := do
  record (.function (← currentKind))
  let start := (← expect .identifier).span.start
  let name ← functionName
  let _ ← expectOr .openParen [.identifier, .openParen]
  let list ← watchedDelimited watch down.bound .closeParen (parameter down)
  let outer ← setInReturnType true
  let returnType ← typeAfterColon down
  let _ ← setInReturnType false
  let body ← functionBody down returnType.isSome
  let _ ← setInReturnType outer
  return .function name list.elements returnType body (← spanFrom start)

/-- A block: a word, and statements between curly brackets. -/
def block (down : Descent watch) (kind : BlockKind) : Parse (Expr Span) := do
  record (.block kind)
  let start := (← expect .identifier).span.start
  let body ← blockBody down
  return .block kind body (← spanFrom start)

end SurfaceGrammar.Parse

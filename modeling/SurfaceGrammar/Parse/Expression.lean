import SurfaceGrammar.Parse.Composite

/-!
# Expressions

An expression is a primary one, the calls, members and suffixes right after it, and then
binary operators with their right operands. Only operators that bind more tightly than a
given power are taken in, so of operators with equal power the left one is applied first.

* `Parse.primary`: the production that a rule for primary expressions names.
* `Parse.suffixChain`: the calls, members and suffixes after an expression.
* `Parse.operators`: the binary operators after an expression.
* `Parse.expr`: an expression of operators that bind more tightly than a power.
* `Parse.statementExpr`: an expression in the place of a statement.
-/

namespace SurfaceGrammar.Parse

variable {watch : Watch}

/-! ## Literals and conditionals -/

/-- A number, string or char literal. Numbers that are too great are refused. -/
def literal : Parse (Expr Span) := do
  let token ← current
  match token.kind with
  | .number =>
    match (Decimal.read? token.value.toList).filter Binary64.isFinite with
    | some number => return .literal (.number number) (← advance).span
    | none => fail ⟨.numberParseError token.value, token.span.start⟩
  | .string => return .literal (.string token.value) (← advance).span
  | .char =>
    match token.value.toList with
    | c :: _ => return .literal (.char c) (← advance).span
    | [] => unexpected expressionStart
  | _ => unexpected expressionStart

/-- The branch of a conditional for the other case, if there is one. -/
def elseBranch (down : Descent watch) (valueRequired : Bool) (start : Position) :
    Parse (Option (Expr Span)) := do
  if (← current).isKeyword .else then
    let _ ← advance
    let branch ← down.statementExpr valueRequired
    return some branch
  else if valueRequired && down.elseRequired then
    fail ⟨.missingElseBranch, start⟩
  else
    return none

/-- Passes the word `then`, if the parse stands at it. -/
def skipThen : Parse Unit := do
  if (← current).isKeyword .then then
    let _ ← advance
    return ()
  else
    return ()

/-- A conditional: `if condition then branch else branch`, where the word `then` and the
other branch may be left out. An `else` belongs to the nearest `if` before it. -/
def conditional (down : Descent watch) (valueRequired : Bool) : Parse (Expr Span) := do
  record (.conditional valueRequired)
  let start := (← advance).span.start
  let condition ← down.expr .default
  skipThen
  let thenBranch ← down.statementExpr valueRequired
  let otherwise ← elseBranch down valueRequired start
  return .conditional condition thenBranch otherwise (← spanFrom start)

/-- Whether a word is followed by an opening curly bracket that belongs to it. -/
def opensCurly : Parse Bool := do
  if (← get).inReturnType then
    return false
  else
    return (← peek).kind = .openCurly

/-- A plain label. -/
def plainLabel : Parse (Expr Span) := do
  let token ← expect .identifier
  return .label token.value token.span

/-- A truth value, at the word for it. -/
def boolean (value : Bool) : Parse (Expr Span) := do
  return .literal (.boolean value) (← advance).span

/-- A label, a truth value, or an expression that begins with a keyword. -/
def label (down : Descent watch) : Parse (Expr Span) := do
  match (← current).keyword? with
  | some .true => boolean true
  | some .false => boolean false
  | some .if => conditional down true
  | some .fn => function down
  | some .then | some .else => unexpected expressionStart
  | some .do => if ← opensCurly then block down .do else plainLabel
  | some .scope => if ← opensCurly then block down .scope else plainLabel
  | some .set => if ← opensCurly then set down else plainLabel
  | some .map => if ← opensCurly then mapping down else plainLabel
  | some .type | none => plainLabel

/-! ## Declarations and updates -/

/-- The type of a declaration, unless its value follows at once. -/
def declaredType (down : Descent watch) : Parse (Option (Expr Span)) := do
  if ← standsAt .assignment then
    return none
  else
    let type ← down.expr .default
    return some type

/-- A declaration: `label : type = value`, where the type may be left out. -/
def declaration (down : Descent watch) : Parse (Expr Span) := do
  record (.declaration (← current).value)
  let label ← expect .identifier
  let _ ← expect .colon
  let type ← declaredType down
  let _ ← expect .assignment
  let value ← down.expr .default
  return .declaration label.value type value (← spanFrom label.span.start)

/-- An update: a label, an operator that changes it, and a value. -/
def update (down : Descent watch) : Parse (Expr Span) := do
  record (.update (← current).value)
  let label ← expect .identifier
  match Updater.ofKind? (← currentKind) with
  | none =>
    unexpected [.leftArrow, .plusEquals, .minusEquals, .starEquals, .slashEquals,
      .percentEquals, .caretEquals]
  | some operator =>
    let _ ← advance
    let value ← down.expr .default
    return .update label.value operator value (← spanFrom label.span.start)

/-! ## What follows an expression -/

/-- A call of an expression. -/
def call (down : Descent watch) (callee : Expr Span) : Parse (Expr Span) := do
  let _ ← expect .openParen
  let list ← watchedDelimited watch down.bound .closeParen (down.expr .default)
  return .call callee list.elements ⟨callee.mark.start, list.closing.span.stop⟩

/-- A member of an expression. -/
def member (base : Expr Span) : Parse (Expr Span) := do
  let _ ← expect .dot
  let field ← expect .identifier
  return .member base field.value ⟨base.mark.start, field.span.stop⟩

/-- A suffix of an expression. -/
def suffix (base : Expr Span) : Parse (Expr Span) := do
  match SuffixOperator.ofKind? (← currentKind) with
  | none => unexpected [.dot, .dollar, .hash, .question]
  | some operator =>
    let token ← advance
    return .suffix base operator ⟨base.mark.start, token.span.stop⟩

/-- Whether a point before the token makes a member of it: a name on the same line that
does not go on with a conditional. -/
def isField (next : Token) : Bool :=
  next.kind = .identifier && !next.newlineBefore
    && !(next.isKeyword .then || next.isKeyword .else)

/-- A member or a suffix of an expression, at a point. -/
def afterPoint (base : Expr Span) : Parse (Expr Span) := do
  let next ← peek
  if isField next then member base else suffix base

/-- The calls, members and suffixes after an expression. -/
def suffixChain (down : Descent watch) : Nat → Expr Span → Parse (Expr Span)
  | 0, _ => throw .exhausted
  | bound + 1, base => do
    if ← atLineBreak then
      return base
    else
      match ← currentKind with
      | .openParen =>
        let base ← call down base
        suffixChain down bound base
      | .dot =>
        let base ← afterPoint base
        suffixChain down bound base
      | .dollar | .hash | .question =>
        let base ← suffix base
        suffixChain down bound base
      | _ => return base

/-- A binary operator after its left operand, with its right operand. -/
def binary (down : Descent watch) (left : Expr Span) (power : Power) : Parse (Expr Span) := do
  let token ← advance
  match BinaryOperator.ofKind? token.kind with
  | none => fail ⟨.unexpectedToken token.describe [], token.span.start⟩
  | some operator =>
    let right ← down.expr power
    return .binary left operator right (left.mark.join right.mark)

/-- The production that a rule for what follows an expression names. -/
def following (down : Descent watch) (rule : InfixRule) (left : Expr Span) (power : Power) :
    Parse (Expr Span) :=
  match rule with
  | .binary => binary down left power
  | .call => call down left
  | .member => member left
  | .suffix => suffix left
  | .suffixChain => suffixChain down down.bound left

/-- The operators after an expression that bind more tightly than a power. -/
def operators (down : Descent watch) (power : Power) : Nat → Expr Span → Parse (Expr Span)
  | 0, _ => throw .exhausted
  | bound + 1, left => do
    if ← atLineBreak then
      return left
    else
      match down.rules.operator? (← currentKind) with
      | none => return left
      | some (level, rule) =>
        if level ≤ power then
          return left
        else
          let left ← following down rule left level
          operators down power bound left

/-! ## Whole expressions -/

/-- The production that a rule for primary expressions names. -/
def primary (down : Descent watch) : PrimaryRule → Parse (Expr Span)
  | .literal => literal
  | .label => label down
  | .sequence .tuple => tuple down
  | .sequence .array => array down
  | .sequence .set => set down
  | .mapping => mapping down
  | .object => object down
  | .function => function down
  | .declaration => declaration down
  | .update => update down
  | .conditional valueRequired => conditional down valueRequired
  | .block kind => block down kind
  | .statementExpr valueRequired => down.statementExpr valueRequired

/-- An expression of operators that bind more tightly than a power. -/
def expr (down : Descent watch) (power : Power) : Parse (Expr Span) := do
  let kind ← currentKind
  record (.expr power kind)
  match down.rules.primary? kind with
  | none => unexpected expressionStart
  | some rule =>
    let first ← primary down rule
    let left ← suffixChain down down.bound first
    operators down power down.bound left

/-- An expression in the place of a statement. A label and a colon begin a declaration, a
label and an updater an update. -/
def statementExpr (down : Descent watch) (valueRequired : Bool) : Parse (Expr Span) := do
  record (.statementExpr (← currentKind))
  if ← standsAt .identifier then
    let next ← peek
    if next.kind = .colon then
      declaration down
    else if next.kind.isUpdater then
      update down
    else if (← current).isKeyword .if then
      conditional down valueRequired
    else
      expr down .default
  else
    expr down .default

end SurfaceGrammar.Parse

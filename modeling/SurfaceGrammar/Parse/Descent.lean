import SurfaceGrammar.Parse.Watch

/-!
# Descent into nested productions

An expression holds expressions, so its productions call each other without end in sight.
The calls that go down by a level, after a token was passed, are bundled here: a production
takes the bundle as an argument and is written without recursion of its own. The bundle for
a number of levels is tied together from the productions later on.

* `Descent`: the calls that a production makes a level below.
* `Parse.delimited`: the elements between delimiters, for every form that has such.
-/

namespace SurfaceGrammar

/-- The calls that a production makes a level below, in a parse with a watch. -/
structure Descent (watch : Watch := .idle) where
  rules : Rules
  /-- Whether a conditional whose value is used must have a branch for the other case. -/
  elseRequired : Bool
  /-- The number of rounds that a loop may take, which is the number of levels left. -/
  bound : Nat
  /-- An expression of operators that bind more tightly than a power. -/
  expr : Power → Parse (Expr Span)
  /-- An expression in the place of a statement, and whether its value is used. -/
  statementExpr : Bool → Parse (Expr Span)

namespace Descent

/-- The descent with no level left. -/
def bottom (rules : Rules) (elseRequired : Bool) (watch : Watch := .idle) : Descent watch where
  rules
  elseRequired
  bound := 0
  expr _ := throw .exhausted
  statementExpr _ := throw .exhausted

end Descent

namespace Parse

/-! ## Delimited elements -/

/-- The elements between delimiters. -/
structure Delimited (β : Type) where
  elements : List β
  /-- Whether a comma stands after the last element. -/
  trailingComma : Bool
  /-- The closing delimiter. -/
  closing : Token

/-- Elements up to a closing delimiter, which is not passed. A comma stands between two
elements and may stand after the last. -/
def elements {β : Type} (close : TokenKind) (element : Parse β) :
    Nat → Bool → Parse (List β × Bool)
  | 0, _ => throw .exhausted
  | bound + 1, trailingComma => do
    if ← standsAt close then
      return ([], trailingComma)
    else
      let first ← element
      if ← standsAt .comma then
        let _ ← advance
        let (rest, trailingComma) ← elements close element bound true
        return (first :: rest, trailingComma)
      else
        return ([first], false)

/-- Elements up to a closing delimiter, after the opening one, in a parse with a watch. Line breaks
between the delimiters mean nothing, and no return type goes on between them. -/
def watchedDelimited {β : Type} (watch : Watch) (bound : Nat) (close : TokenKind)
    (element : Parse β) : Parse (Delimited β) := do
  enterGroup
  let outer ← setInReturnType false
  let (elements, trailingComma) ← elements close element bound false
  watch.atExit
  exitGroup
  let _ ← setInReturnType outer
  let closing ← expectOr close [.comma, close]
  return { elements, trailingComma, closing }

/-- Elements up to a closing delimiter, after the opening one. -/
abbrev delimited {β : Type} (bound : Nat) (close : TokenKind) (element : Parse β) :
    Parse (Delimited β) :=
  watchedDelimited .idle bound close element

end Parse

end SurfaceGrammar

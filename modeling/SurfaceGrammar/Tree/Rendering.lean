import SurfaceGrammar.Tree.Basic

/-!
# Rendering of trees

A tree is rendered as an S-expression: an atom, or a list of S-expressions between
parentheses. The rendering leaves out the marks of the nodes.

* `Sexpr`: S-expressions, with `Sexpr.render` for their text.
* `Expr.sexpr`, `Stmt.sexpr`: the S-expression of a tree.
* `Module.render`: the statements of a source, a line each.
-/

namespace SurfaceGrammar

/-- An atom or a list. -/
inductive Sexpr where
  | atom (text : String)
  | list (items : List Sexpr)

namespace Sexpr

mutual

/-- The text of an S-expression. -/
def render : Sexpr → String
  | .atom text => text
  | .list items => "(" ++ renderEach items ++ ")"

/-- The texts of S-expressions, separated by spaces. -/
def renderEach : List Sexpr → String
  | [] => ""
  | [item] => item.render
  | item :: next :: rest => item.render ++ " " ++ renderEach (next :: rest)

end

/-- The atom that stands for a part that is left out. -/
def absent : Sexpr := .atom "_"

end Sexpr

/-- The word that begins the S-expression of a sequence. -/
def SequenceForm.word : SequenceForm → String
  | .tuple => "tuple"
  | .array => "array"
  | .set => "set"

section Sexpr

open Sexpr (atom list absent)

variable {α : Type}

mutual

/-- The S-expression of an expression. -/
def Expr.sexpr : Expr α → Sexpr
  | .literal value _ => atom value.source
  | .label name _ => atom name
  | .sequence form elements _ => list (atom form.word :: Expr.sexprEach elements)
  | .mapping entries _ => list (atom "map" :: Entry.sexprEach entries)
  | .object fields _ => list (atom "object" :: Field.sexprEach fields)
  | .function name parameters returnType body _ =>
    list [atom "fn", (name.map atom).getD absent, list (Parameter.sexprEach parameters),
      Expr.sexprOption returnType, Body.sexpr body]
  | .call callee arguments _ =>
    list (atom "call" :: callee.sexpr :: Expr.sexprEach arguments)
  | .member base field _ => list [atom "attr", base.sexpr, atom field]
  | .binary left operator right _ => list [atom operator.symbol, left.sexpr, right.sexpr]
  | .suffix base operator _ => list [atom "suffix", atom operator.symbol, base.sexpr]
  | .conditional condition thenBranch none _ =>
    list [atom "if", condition.sexpr, thenBranch.sexpr]
  | .conditional condition thenBranch (some elseBranch) _ =>
    list [atom "if", condition.sexpr, thenBranch.sexpr, elseBranch.sexpr]
  | .block kind body _ => list (atom kind.word :: Stmt.sexprEach body)
  | .declaration name type value _ =>
    list [atom "decl", atom name, Expr.sexprOption type, value.sexpr]
  | .update name operator value _ => list [atom operator.symbol, atom name, value.sexpr]

/-- The S-expression of the body of a function. -/
def Body.sexpr : Body α → Sexpr
  | .block statements => list (atom "block" :: Stmt.sexprEach statements)
  | .arrow value => value.sexpr

/-- The S-expression of a statement. -/
def Stmt.sexpr : Stmt α → Sexpr
  | .expression value => value.sexpr
  | .typeDefinition name definition _ => list [atom "type", atom name, definition.sexpr]

/-- The S-expressions of expressions. -/
def Expr.sexprEach : List (Expr α) → List Sexpr
  | [] => []
  | e :: rest => e.sexpr :: Expr.sexprEach rest

/-- The S-expression of an expression that may be left out. -/
def Expr.sexprOption : Option (Expr α) → Sexpr
  | none => absent
  | some e => e.sexpr

/-- The S-expressions of keys with their values. -/
def Entry.sexprEach : List (Entry α) → List Sexpr
  | [] => []
  | ⟨key, value, _⟩ :: rest => list [key.sexpr, value.sexpr] :: Entry.sexprEach rest

/-- The S-expressions of labels with their values. -/
def Field.sexprEach : List (Field α) → List Sexpr
  | [] => []
  | ⟨label, value, _⟩ :: rest => list [atom label, value.sexpr] :: Field.sexprEach rest

/-- The S-expressions of parameters. -/
def Parameter.sexprEach : List (Parameter α) → List Sexpr
  | [] => []
  | ⟨label, none, _⟩ :: rest => atom label :: Parameter.sexprEach rest
  | ⟨label, some type, _⟩ :: rest =>
    list [atom label, type.sexpr] :: Parameter.sexprEach rest

/-- The S-expressions of statements. -/
def Stmt.sexprEach : List (Stmt α) → List Sexpr
  | [] => []
  | s :: rest => s.sexpr :: Stmt.sexprEach rest

end

/-- An expression as a text. -/
def Expr.render (e : Expr α) : String :=
  e.sexpr.render

/-- A statement as a text. -/
def Stmt.render (s : Stmt α) : String :=
  s.sexpr.render

end Sexpr

/-- The statements of a source, a line each. -/
def Module.render (whole : Module) : String :=
  String.intercalate "\n" (whole.body.map Stmt.render)

end SurfaceGrammar

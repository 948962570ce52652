import SurfaceGrammar.Literal.Basic
import SurfaceGrammar.Source.Position
import SurfaceGrammar.Tree.Operator

/-!
# Syntax trees

The expressions and the statements of a source. Every node carries a mark, for which a
parsed tree has the span of the node; with the unit type as the type of marks a tree is its
bare structure.

* `Expr`, `Stmt`: expressions and statements.
* `Expr.mark`, `Stmt.mark`: the mark of a node.
* `Expr.mapMark`, `Stmt.mapMark`: a tree with other marks.
* `Module`: the statements of a whole source.
-/

namespace SurfaceGrammar

/-- What encloses a list of elements. -/
inductive SequenceForm where
  | tuple
  | array
  | set
deriving DecidableEq, Inhabited

mutual

/-- An expression. -/
inductive Expr (α : Type) where
  | literal (value : Literal) (mark : α)
  | label (name : String) (mark : α)
  /-- A tuple, an array or a set. -/
  | sequence (form : SequenceForm) (elements : List (Expr α)) (mark : α)
  /-- A list of keys with their values. -/
  | mapping (entries : List (Entry α)) (mark : α)
  /-- A list of labels with their values. -/
  | object (fields : List (Field α)) (mark : α)
  | function (name : Option String) (parameters : List (Parameter α))
    (returnType : Option (Expr α)) (body : Body α) (mark : α)
  | call (callee : Expr α) (arguments : List (Expr α)) (mark : α)
  | member (base : Expr α) (field : String) (mark : α)
  | binary (left : Expr α) (operator : BinaryOperator) (right : Expr α) (mark : α)
  | suffix (base : Expr α) (operator : SuffixOperator) (mark : α)
  | conditional (condition thenBranch : Expr α) (elseBranch : Option (Expr α)) (mark : α)
  | block (kind : BlockKind) (body : List (Stmt α)) (mark : α)
  | declaration (name : String) (type : Option (Expr α)) (value : Expr α) (mark : α)
  | update (name : String) (operator : Updater) (value : Expr α) (mark : α)

/-- A key with its value. -/
structure Entry (α : Type) where
  key : Expr α
  value : Expr α
  mark : α

/-- A label with its value. -/
structure Field (α : Type) where
  label : String
  value : Expr α
  mark : α

/-- A parameter of a function, with its type if one is given. -/
structure Parameter (α : Type) where
  label : String
  type : Option (Expr α)
  mark : α

/-- The body of a function: statements, or an expression for its value. -/
inductive Body (α : Type) where
  | block (statements : List (Stmt α))
  | arrow (value : Expr α)

/-- A statement. -/
inductive Stmt (α : Type) where
  | expression (value : Expr α)
  | typeDefinition (name : String) (definition : Expr α) (mark : α)

end

instance {α : Type} [Inhabited α] : Inhabited (Expr α) := ⟨.label "" default⟩

instance {α : Type} [Inhabited α] : Inhabited (Stmt α) := ⟨.expression default⟩

/-! ## Marks -/

/-- The mark of an expression. -/
def Expr.mark {α : Type} : Expr α → α
  | .literal _ mark | .label _ mark | .sequence _ _ mark | .mapping _ mark | .object _ mark
  | .function _ _ _ _ mark | .call _ _ mark | .member _ _ mark | .binary _ _ _ mark
  | .suffix _ _ mark | .conditional _ _ _ mark | .block _ _ mark | .declaration _ _ _ mark
  | .update _ _ _ mark => mark

/-- The mark of a statement. An expression statement has that of its expression. -/
def Stmt.mark {α : Type} : Stmt α → α
  | .expression value => value.mark
  | .typeDefinition _ _ mark => mark

section MapMark

variable {α β : Type}

mutual

/-- An expression with other marks. -/
def Expr.mapMark (f : α → β) : Expr α → Expr β
  | .literal value mark => .literal value (f mark)
  | .label name mark => .label name (f mark)
  | .sequence form elements mark => .sequence form (Expr.mapMarkEach f elements) (f mark)
  | .mapping entries mark => .mapping (Entry.mapMarkEach f entries) (f mark)
  | .object fields mark => .object (Field.mapMarkEach f fields) (f mark)
  | .function name parameters returnType body mark =>
    .function name (Parameter.mapMarkEach f parameters) (Expr.mapMarkOption f returnType)
      (Body.mapMark f body) (f mark)
  | .call callee arguments mark =>
    .call (callee.mapMark f) (Expr.mapMarkEach f arguments) (f mark)
  | .member base field mark => .member (base.mapMark f) field (f mark)
  | .binary left operator right mark =>
    .binary (left.mapMark f) operator (right.mapMark f) (f mark)
  | .suffix base operator mark => .suffix (base.mapMark f) operator (f mark)
  | .conditional condition thenBranch elseBranch mark =>
    .conditional (condition.mapMark f) (thenBranch.mapMark f)
      (Expr.mapMarkOption f elseBranch) (f mark)
  | .block kind body mark => .block kind (Stmt.mapMarkEach f body) (f mark)
  | .declaration name type value mark =>
    .declaration name (Expr.mapMarkOption f type) (value.mapMark f) (f mark)
  | .update name operator value mark => .update name operator (value.mapMark f) (f mark)

/-- The body of a function with other marks. -/
def Body.mapMark (f : α → β) : Body α → Body β
  | .block statements => .block (Stmt.mapMarkEach f statements)
  | .arrow value => .arrow (value.mapMark f)

/-- A statement with other marks. -/
def Stmt.mapMark (f : α → β) : Stmt α → Stmt β
  | .expression value => .expression (value.mapMark f)
  | .typeDefinition name definition mark =>
    .typeDefinition name (definition.mapMark f) (f mark)

/-- Expressions with other marks. -/
def Expr.mapMarkEach (f : α → β) : List (Expr α) → List (Expr β)
  | [] => []
  | e :: rest => e.mapMark f :: Expr.mapMarkEach f rest

/-- An optional expression with other marks. -/
def Expr.mapMarkOption (f : α → β) : Option (Expr α) → Option (Expr β)
  | none => none
  | some e => some (e.mapMark f)

/-- Entries with other marks. -/
def Entry.mapMarkEach (f : α → β) : List (Entry α) → List (Entry β)
  | [] => []
  | ⟨key, value, mark⟩ :: rest =>
    ⟨key.mapMark f, value.mapMark f, f mark⟩ :: Entry.mapMarkEach f rest

/-- Fields with other marks. -/
def Field.mapMarkEach (f : α → β) : List (Field α) → List (Field β)
  | [] => []
  | ⟨label, value, mark⟩ :: rest =>
    ⟨label, value.mapMark f, f mark⟩ :: Field.mapMarkEach f rest

/-- Parameters with other marks. -/
def Parameter.mapMarkEach (f : α → β) : List (Parameter α) → List (Parameter β)
  | [] => []
  | ⟨label, none, mark⟩ :: rest => ⟨label, none, f mark⟩ :: Parameter.mapMarkEach f rest
  | ⟨label, some type, mark⟩ :: rest =>
    ⟨label, some (type.mapMark f), f mark⟩ :: Parameter.mapMarkEach f rest

/-- Statements with other marks. -/
def Stmt.mapMarkEach (f : α → β) : List (Stmt α) → List (Stmt β)
  | [] => []
  | s :: rest => s.mapMark f :: Stmt.mapMarkEach f rest

end

end MapMark

/-! ## Whole sources -/

/-- The statements of a whole source, with its span. -/
structure Module where
  body : List (Stmt Span)
  span : Span

end SurfaceGrammar

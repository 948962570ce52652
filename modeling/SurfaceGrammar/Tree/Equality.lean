import SurfaceGrammar.Tree.Basic

/-!
# Equality of trees

Two trees are equal if they have the same structure, the same names and operators, equal
literals and equal marks. Numbers are compared as numbers, so this is coarser than equality
of the data: the zeros of both signs are the same.

* `Expr.agree`, `Stmt.agreeEach`: equality of trees, with a given comparison of the marks.
* `Module.same`: equality of modules with all spans.
-/

namespace SurfaceGrammar

section Agree

variable {α : Type} (marks : α → α → Bool)

mutual

/-- Whether two expressions are equal. -/
def Expr.agree : Expr α → Expr α → Bool
  | .literal v s, .literal w t => v.same w && marks s t
  | .label m s, .label n t => m = n && marks s t
  | .sequence f d s, .sequence g e t => f = g && Expr.agreeEach d e && marks s t
  | .mapping d s, .mapping e t => Entry.agreeEach d e && marks s t
  | .object d s, .object e t => Field.agreeEach d e && marks s t
  | .function m p r b s, .function n q u c t =>
    m = n && Parameter.agreeEach p q && Expr.agreeOption r u && Body.agree b c && marks s t
  | .call f d s, .call g e t => f.agree g && Expr.agreeEach d e && marks s t
  | .member d m s, .member e n t => d.agree e && m = n && marks s t
  | .binary l o r s, .binary m p u t => l.agree m && o = p && r.agree u && marks s t
  | .suffix d o s, .suffix e p t => d.agree e && o = p && marks s t
  | .conditional c d r s, .conditional b e u t =>
    c.agree b && d.agree e && Expr.agreeOption r u && marks s t
  | .block k b s, .block l c t => k = l && Stmt.agreeEach b c && marks s t
  | .declaration m r d s, .declaration n u e t =>
    m = n && Expr.agreeOption r u && d.agree e && marks s t
  | .update m o d s, .update n p e t => m = n && o = p && d.agree e && marks s t
  | _, _ => false

/-- Whether two bodies of functions are equal. -/
def Body.agree : Body α → Body α → Bool
  | .block b, .block c => Stmt.agreeEach b c
  | .arrow d, .arrow e => d.agree e
  | _, _ => false

/-- Whether two statements are equal. -/
def Stmt.agree : Stmt α → Stmt α → Bool
  | .expression d, .expression e => d.agree e
  | .typeDefinition m d s, .typeDefinition n e t => m = n && d.agree e && marks s t
  | _, _ => false

/-- Whether two lists of expressions are equal. -/
def Expr.agreeEach : List (Expr α) → List (Expr α) → Bool
  | [], [] => true
  | d :: ds, e :: es => d.agree e && Expr.agreeEach ds es
  | _, _ => false

/-- Whether two optional expressions are equal. -/
def Expr.agreeOption : Option (Expr α) → Option (Expr α) → Bool
  | none, none => true
  | some d, some e => d.agree e
  | _, _ => false

/-- Whether two lists of entries are equal. -/
def Entry.agreeEach : List (Entry α) → List (Entry α) → Bool
  | [], [] => true
  | ⟨k, v, s⟩ :: ds, ⟨l, w, t⟩ :: es =>
    k.agree l && v.agree w && marks s t && Entry.agreeEach ds es
  | _, _ => false

/-- Whether two lists of fields are equal. -/
def Field.agreeEach : List (Field α) → List (Field α) → Bool
  | [], [] => true
  | ⟨m, v, s⟩ :: ds, ⟨n, w, t⟩ :: es =>
    m = n && v.agree w && marks s t && Field.agreeEach ds es
  | _, _ => false

/-- Whether two lists of parameters are equal. -/
def Parameter.agreeEach : List (Parameter α) → List (Parameter α) → Bool
  | [], [] => true
  | ⟨m, none, s⟩ :: ds, ⟨n, none, t⟩ :: es =>
    m = n && marks s t && Parameter.agreeEach ds es
  | ⟨m, some v, s⟩ :: ds, ⟨n, some w, t⟩ :: es =>
    m = n && v.agree w && marks s t && Parameter.agreeEach ds es
  | _, _ => false

/-- Whether two lists of statements are equal. -/
def Stmt.agreeEach : List (Stmt α) → List (Stmt α) → Bool
  | [], [] => true
  | d :: ds, e :: es => d.agree e && Stmt.agreeEach ds es
  | _, _ => false

end

end Agree

/-- Equality of spans, with their file names. -/
def Span.same (first second : Span) : Bool :=
  first = second

namespace Module

/-- Whether two modules have equal statements. -/
def sameBody (first second : Module) : Bool :=
  Stmt.agreeEach Span.same first.body second.body

/-- Whether two modules are equal. -/
def same (first second : Module) : Bool :=
  sameBody first second && first.span.same second.span

end Module

end SurfaceGrammar

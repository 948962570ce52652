import SurfaceGrammar.Proofs.Token.Places
import SurfaceGrammar.Tree.Basic

/-!
# The nodes of a tree

The statements, the expressions and their parts are the nodes of a tree. This file lists the
children of every kind of node in the order in which a source has them, and says how the spans of
a tree should lie: each from the start of a token to the end of one, the children inside their
parent and one after another.

* `Node`, `Node.span`, `Node.children`: the nodes of a tree.
* `Node.Everywhere`: a property of a node and of all nodes below it.
* `Module.HasNode`: the nodes of a module.
* `Balanced`, `Encloses`: which closing parenthesis belongs to an opening one.
* `Node.Edges`: where a node starts and ends that begins with another one.
* `Node.WellPlaced`: how the span of a node lies among the tokens and around its children.
-/

namespace SurfaceGrammar

/-! ## Nodes -/

/-- A node of a tree. -/
inductive Node where
  | stmt (stmt : Stmt Span)
  | expr (expr : Expr Span)
  | entry (entry : Entry Span)
  | field (field : Field Span)
  | parameter (parameter : Parameter Span)

/-- The statements or the value of a body. -/
def Body.nodes : Body Span → List Node
  | .block statements => statements.map .stmt
  | .arrow value => [.expr value]

/-- An optional expression. -/
def Node.optional (e : Option (Expr Span)) : List Node := e.toList.map .expr

namespace Node

/-- Where a node stands. -/
def span : Node → Span
  | stmt x => x.mark
  | expr e => e.mark
  | entry x => x.mark
  | field x => x.mark
  | parameter x => x.mark

/-- The children of a node, in the order of the source. -/
def children : Node → List Node
  | stmt (.expression value) => [.expr value]
  | stmt (.typeDefinition _ definition _) => [.expr definition]
  | expr (.literal _ _) | expr (.label _ _) => []
  | expr (.sequence _ elements _) => elements.map .expr
  | expr (.mapping entries _) => entries.map .entry
  | expr (.object fields _) => fields.map .field
  | expr (.function _ parameters returnType body _) =>
    parameters.map .parameter ++ (optional returnType ++ body.nodes)
  | expr (.call callee arguments _) => .expr callee :: arguments.map .expr
  | expr (.member base _ _) => [.expr base]
  | expr (.binary left _ right _) => [.expr left, .expr right]
  | expr (.suffix base _ _) => [.expr base]
  | expr (.conditional condition thenBranch elseBranch _) =>
    .expr condition :: .expr thenBranch :: optional elseBranch
  | expr (.block _ body _) => body.map .stmt
  | expr (.declaration _ type value _) => optional type ++ [.expr value]
  | expr (.update _ _ value _) => [.expr value]
  | entry x => [.expr x.key, .expr x.value]
  | field x => [.expr x.value]
  | parameter x => optional x.type

/-- A property holds of a node and of all nodes below it. -/
inductive Everywhere (P : Node → Prop) : Node → Prop
  | intro {n : Node} (here : P n) (below : ∀ c ∈ n.children, Everywhere P c) : Everywhere P n

variable {P : Node → Prop} {n c : Node}

theorem Everywhere.here (h : n.Everywhere P) : P n := by
  cases h with
  | intro here _ => exact here

theorem Everywhere.child (h : n.Everywhere P) (hc : c ∈ n.children) : c.Everywhere P := by
  cases h with
  | intro _ below => exact below c hc

end Node

/-- The nodes of a module. -/
inductive Module.HasNode (m : Module) : Node → Prop
  | statement {x : Stmt Span} (mem : x ∈ m.body) : HasNode m (.stmt x)
  | child {n c : Node} (parent : HasNode m n) (mem : c ∈ n.children) : HasNode m c

/-- What holds everywhere in the statements of a module holds of all its nodes. -/
theorem Module.HasNode.everywhere {m : Module} {P : Node → Prop} {n : Node} (h : m.HasNode n)
    (hbody : ∀ x ∈ m.body, (Node.stmt x).Everywhere P) : n.Everywhere P := by
  induction h with
  | statement mem => exact hbody _ mem
  | child _ mem ih => exact ih.child mem

/-! ## Parentheses -/

/-- The parentheses in a list of tokens close each other. -/
inductive Balanced : List Token → Prop
  | nil : Balanced []
  | cons {t : Token} {ts : List Token} (notOpening : t.kind ≠ .openParen)
      (notClosing : t.kind ≠ .closeParen) (tail : Balanced ts) : Balanced (t :: ts)
  | group {opening closing : Token} {inside ts : List Token} (opens : opening.kind = .openParen)
      (inner : Balanced inside) (closes : closing.kind = .closeParen) (tail : Balanced ts) :
      Balanced (opening :: (inside ++ closing :: ts))

theorem Balanced.append {ts us : List Token} (h : Balanced ts) (h' : Balanced us) :
    Balanced (ts ++ us) := by
  induction h with
  | nil => exact h'
  | cons notOpening notClosing _ ih => exact .cons notOpening notClosing ih
  | group opens inner closes _ _ ih =>
    rw [List.cons_append, List.append_assoc, List.cons_append]
    exact .group opens inner closes ih

/-- Among the tokens the closing parenthesis belongs to the opening one. -/
def Encloses (ts : List Token) (opening closing : Token) : Prop :=
  opening.kind = .openParen ∧ closing.kind = .closeParen ∧
    ∃ before inside after, ts = before ++ opening :: (inside ++ closing :: after) ∧ Balanced inside

/-! ## Places -/

/-- Among the tokens, `next` is the first one after the span that is no closing parenthesis.
Closing parentheses may stand between them because those around an expression leave no trace in
its tree. -/
structure Span.IsFollowedBy (ts : List Token) (span : Span) (next : Token) : Prop where
  mem : next ∈ ts
  precedes : span.Precedes next.span
  between : ∀ t ∈ ts, span.Precedes t.span → t.span.Precedes next.span → t.kind = .closeParen

/-- A call, a member, a suffix and a binary operator start where their first operand starts. A
call ends with its closing parenthesis, a member with its field, a suffix with its symbol, and a
binary operator with its right operand. -/
def Node.Edges (ts : List Token) : Node → Prop
  | expr (.call callee _ span) => ∃ opening closing,
      callee.mark.IsFollowedBy ts opening ∧ Encloses ts opening closing ∧
        span = ⟨callee.mark.start, closing.span.stop⟩
  | expr (.member base label span) => ∃ point name,
      base.mark.IsFollowedBy ts point ∧ point.kind = .dot ∧ [point, name] <:+: ts ∧
        name.kind = .identifier ∧ name.value = label ∧ span = ⟨base.mark.start, name.span.stop⟩
  | expr (.suffix base operator span) => ∃ symbol,
      base.mark.IsFollowedBy ts symbol ∧ SuffixOperator.ofKind? symbol.kind = some operator ∧
        span = ⟨base.mark.start, symbol.span.stop⟩
  | expr (.binary left _ right span) => span = left.mark.join right.mark
  | _ => True

/-- How the span of a node lies: in the source, from the start of a token to the end of one, with
the children inside and one after another. -/
structure Node.WellPlaced (file : String) (size : Nat) (ts : List Token) (n : Node) : Prop where
  liesIn : n.span.LiesIn file size
  start : ∃ t ∈ ts, n.span.start = t.span.start
  stop : ∃ t ∈ ts, n.span.stop = t.span.stop
  within : ∀ c ∈ n.children, c.span.Within n.span
  ordered : n.children.Pairwise fun a b => a.span.Precedes b.span
  edges : n.Edges ts

end SurfaceGrammar

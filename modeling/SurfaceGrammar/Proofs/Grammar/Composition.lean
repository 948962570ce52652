import SurfaceGrammar.Proofs.Parse.Composed

/-!
# Productions are composed of steps

Every production is composed of single steps and of calls of productions, so it has what these have
in common. The lists between delimiters, the blocks and the functions are the scopes for a change of
the context. Only literals, operators and conditionals fail with an error of their own, so that a
property which some errors lack is to be shown of these apart. The rules do not matter for this.

* `Descent.Obeys`: the calls a level below have a property.
* `Obeys.descent`: they have it at every number of levels.
-/

namespace SurfaceGrammar

/-- The calls a level below have the property. -/
class Descent.Obeys (A : Property) (down : Descent) : Prop where
  expr : ∀ power, SurfaceGrammar.Obeys A (down.expr power)
  statementExpr : ∀ valueRequired, SurfaceGrammar.Obeys A (down.statementExpr valueRequired)

namespace Obeys

-- every step asks for the same fact of the property
set_option synthInstance.maxSize 512

variable {A : Property} [hA : Compositional A] {down : Descent} {β : Type}

omit hA in
instance down_expr [hdown : down.Obeys A] {power : Power} : Obeys A (down.expr power) :=
  hdown.expr power

omit hA in
instance down_statementExpr [hdown : down.Obeys A] {valueRequired : Bool} :
    Obeys A (down.statementExpr valueRequired) :=
  hdown.statementExpr valueRequired

/-! ## Literals and labels -/

instance literal [Throws A] : Obeys A Parse.literal := by
  unfold Parse.literal
  refine seq fun token => ?_
  split
  · split <;> infer_instance
  · infer_instance
  · split <;> infer_instance
  · infer_instance

instance boolean {value : Bool} : Obeys A (Parse.boolean value) := by
  unfold Parse.boolean
  infer_instance

instance plainLabel : Obeys A Parse.plainLabel := by
  unfold Parse.plainLabel
  infer_instance

instance opensCurly : Obeys A Parse.opensCurly := look fun _ _ _ _ => rfl

/-! ## Delimited lists -/

/-- The induction is on the bound of the loop. -/
instance elements {close : TokenKind} {element : Parse β} [Obeys A element] {bound : Nat}
    {trailingComma : Bool} : Obeys A (Parse.elements close element bound trailingComma) := by
  induction bound generalizing trailingComma with
  | zero => exact exhausted
  | succ bound ih =>
    unfold Parse.elements
    infer_instance

instance delimited {bound : Nat} {close : TokenKind} {element : Parse β} [Obeys A element] :
    Obeys A (Parse.delimited bound close element) := by
  unfold Parse.delimited Parse.watchedDelimited
  simp only [Watch.atExit_idle, pure_bind]
  exact ⟨hA.inGroup holds fun _ => holds⟩

section Composite

variable [down.Obeys A]

omit [down.Obeys A] in
/-- The result of a tuple, or of an expression in parentheses. -/
theorem grouped (start : Position) (list : Parse.Delimited (Expr Span)) :
    Obeys A (match list.elements, list.trailingComma with
      | [inner], false => Pure.pure inner
      | elements, _ => Pure.pure (.sequence .tuple elements ⟨start, list.closing.span.stop⟩) :
      Parse (Expr Span)) := by
  split <;> infer_instance

instance tuple : Obeys A (Parse.tuple down) := by
  have hgrouped := grouped (A := A)
  unfold Parse.tuple
  infer_instance

instance array : Obeys A (Parse.array down) := by
  unfold Parse.array
  infer_instance

instance set : Obeys A (Parse.set down) := by
  unfold Parse.set
  infer_instance

instance entry : Obeys A (Parse.entry down) := by
  unfold Parse.entry
  infer_instance

instance mapping : Obeys A (Parse.mapping down) := by
  unfold Parse.mapping
  infer_instance

instance field : Obeys A (Parse.field down) := by
  unfold Parse.field
  infer_instance

instance object : Obeys A (Parse.object down) := by
  unfold Parse.object
  infer_instance

instance typeAfterColon : Obeys A (Parse.typeAfterColon down) := by
  unfold Parse.typeAfterColon
  infer_instance

instance parameter : Obeys A (Parse.parameter down) := by
  unfold Parse.parameter
  infer_instance

end Composite

/-! ## Statements -/

section Statement

variable [down.Obeys A]

instance beginsTypeDefinition : Obeys A Parse.beginsTypeDefinition := by
  unfold Parse.beginsTypeDefinition
  infer_instance

instance typeDefinition : Obeys A (Parse.typeDefinition down) := by
  unfold Parse.typeDefinition
  infer_instance

instance terminator {close : TokenKind} : Obeys A (Parse.terminator close) := by
  unfold Parse.terminator
  infer_instance

instance statementContent : Obeys A (Parse.statementContent down) := by
  unfold Parse.statementContent
  infer_instance

instance statement {close : TokenKind} : Obeys A (Parse.statement down close) := by
  unfold Parse.statement
  rw [Watch.atStatement_idle, pure_bind]
  infer_instance

/-- The induction is on the bound of the loop. -/
instance statements {close : TokenKind} {bound : Nat} :
    Obeys A (Parse.statements down close bound) := by
  induction bound with
  | zero => exact exhausted
  | succ bound ih =>
    unfold Parse.statements
    infer_instance

instance blockBody : Obeys A (Parse.blockBody down) := by
  unfold Parse.blockBody
  exact seq fun _ => ⟨hA.inBlock holds fun _ => holds⟩

end Statement

/-! ## Functions, blocks and conditionals -/

section Branches

variable [down.Obeys A]

instance functionName : Obeys A Parse.functionName := by
  unfold Parse.functionName
  infer_instance

instance functionBody {typed : Bool} : Obeys A (Parse.functionBody down typed) := by
  unfold Parse.functionBody
  refine seq fun kind => ?_
  split <;> infer_instance

/-- The return type and the body are a scope, behind the parameters. -/
instance function : Obeys A (Parse.function down) := by
  unfold Parse.function
  refine seq fun _ => seq fun _ => seq fun start => seq fun name => seq fun _ => seq fun list => ?_
  exact ⟨hA.inFunction holds (fun _ => holds) fun _ _ => holds⟩

instance block {kind : BlockKind} : Obeys A (Parse.block down kind) := by
  unfold Parse.block
  infer_instance

instance skipThen : Obeys A Parse.skipThen := by
  unfold Parse.skipThen
  infer_instance

instance elseBranch {valueRequired : Bool} {start : Position} [Throws A] :
    Obeys A (Parse.elseBranch down valueRequired start) := by
  unfold Parse.elseBranch
  infer_instance

instance conditional {valueRequired : Bool} [Throws A] :
    Obeys A (Parse.conditional down valueRequired) := by
  unfold Parse.conditional
  infer_instance

instance label [Throws A] : Obeys A (Parse.label down) := by
  unfold Parse.label
  refine seq fun token => ?_
  split <;> infer_instance

end Branches

/-! ## Declarations, updates and operators -/

section Following

variable [down.Obeys A] {base left : Expr Span}

instance declaredType : Obeys A (Parse.declaredType down) := by
  unfold Parse.declaredType
  infer_instance

instance declaration : Obeys A (Parse.declaration down) := by
  unfold Parse.declaration
  infer_instance

instance update : Obeys A (Parse.update down) := by
  unfold Parse.update
  refine seq fun label => seq fun _ =>
    seq fun name => seq fun kind => ?_
  split <;> infer_instance

instance call : Obeys A (Parse.call down base) := by
  unfold Parse.call
  infer_instance

instance member : Obeys A (Parse.member base) := by
  unfold Parse.member
  infer_instance

instance suffix : Obeys A (Parse.suffix base) := by
  unfold Parse.suffix
  refine seq fun kind => ?_
  split <;> infer_instance

instance afterPoint : Obeys A (Parse.afterPoint base) := by
  unfold Parse.afterPoint
  infer_instance

/-- The induction is on the bound of the loop. -/
instance suffixChain {bound : Nat} : Obeys A (Parse.suffixChain down bound base) := by
  induction bound generalizing base with
  | zero => exact exhausted
  | succ bound ih =>
    unfold Parse.suffixChain
    refine seq fun line => ?_
    split
    · infer_instance
    · refine seq fun kind => ?_
      split <;> infer_instance

instance binary {power : Power} [Throws A] : Obeys A (Parse.binary down left power) := by
  unfold Parse.binary
  refine seq fun token => ?_
  split <;> infer_instance

instance following {rule : InfixRule} {power : Power} [Throws A] :
    Obeys A (Parse.following down rule left power) := by
  unfold Parse.following
  split <;> infer_instance

/-- The induction is on the bound of the loop. -/
instance operators {power : Power} {bound : Nat} [Throws A] :
    Obeys A (Parse.operators down power bound left) := by
  induction bound generalizing left with
  | zero => exact exhausted
  | succ bound ih =>
    unfold Parse.operators
    refine seq fun line => ?_
    split
    · infer_instance
    · refine seq fun kind => ?_
      split <;> infer_instance

end Following

/-! ## Whole expressions -/

section Whole

variable [down.Obeys A]

instance primary {rule : PrimaryRule} [Throws A] : Obeys A (Parse.primary down rule) := by
  unfold Parse.primary
  split <;> infer_instance

instance expr {power : Power} [Throws A] : Obeys A (Parse.expr down power) := by
  unfold Parse.expr
  refine seq fun kind => seq fun _ => ?_
  split <;> infer_instance

instance statementExpr {valueRequired : Bool} [Throws A] :
    Obeys A (Parse.statementExpr down valueRequired) := by
  unfold Parse.statementExpr
  infer_instance

end Whole

/-! ## All levels -/

/-- The calls a level below have the property, at every number of levels. -/
instance descent {rules : Rules} {elseRequired : Bool} {levels : Nat} [Throws A] :
    (descent rules elseRequired levels).Obeys A := by
  induction levels with
  | zero => exact ⟨fun _ => exhausted, fun _ => exhausted⟩
  | succ levels ih => exact ⟨fun _ => expr, fun _ => statementExpr⟩

/-- The parse of a source ends with a record of its own. -/
instance wholeSource {file : String} [down.Obeys A] [∀ event, Obeys A (Parse.record event)] :
    Obeys A (Parse.wholeSource file down) := by
  unfold Parse.wholeSource
  exact seq fun body => look fun _ _ _ _ => rfl

end Obeys

end SurfaceGrammar

import SurfaceGrammar.Proofs.Grammar.Composition
import SurfaceGrammar.Proofs.Parse.Forward

/-!
# Productions only go forward

Every production is put together from steps that only go forward, so it only goes forward itself.
Where the parts do not say it alone, the reason is that a production looks at the token before it
fails: a number that is too great is the token at which the parse stands, an operator is passed
only where the tables know it, and a conditional began at a token that was passed. Only these are
treated here.

* `Descent.Forward`: the calls a level below only go forward.
* `Forward.descent`: they do at every number of levels.
-/

namespace SurfaceGrammar

/-- The calls a level below only go forward, by the rules of the language. -/
class Descent.Forward (G : Course) (down : Descent) : Prop
    extends down.Obeys (SurfaceGrammar.Forward G) where
  rules : down.rules = .standard
  strict : down.elseRequired = true → G.strict

namespace Forward

open Parse

variable {G : Course} {down : Descent} {β : Type}

/-! ## Literals -/

instance literal : Obeys (Forward G) literal where
  holds s hs := by
    unfold Parse.literal
    rw [bind_current]
    cases hkind : s.current.kind
    case number =>
      dsimp only
      cases (Decimal.read? s.current.value.toList).filter Binary64.isFinite with
      | none => exact .error (.refl hs.toPlaced) (.number hkind)
      | some x => exact Forward.goes s hs
    case string => exact Forward.goes s hs
    case char =>
      dsimp only
      cases s.current.value.toList with
      | nil => exact .unexpected hs.toPlaced _
      | cons c _ => exact Forward.goes s hs
    all_goals exact .unexpected hs.toPlaced _

/-! ## Conditionals and labels -/

section Branches

variable [hdown : down.Forward G]

instance elseBranch {valueRequired : Bool} {start : Position} [hstart : Fact (G.Opens start)] :
    Obeys (Forward G) (elseBranch down valueRequired start) := by
  have hlacking : Obeys (Forward G) (if (valueRequired && down.elseRequired) = true then
      fail ⟨.missingElseBranch, start⟩ else Pure.pure none : Parse (Option (Expr Span))) := by
    split
    · next hrequired =>
      have hstrict := hdown.strict (Bool.and_eq_true_iff.mp hrequired).2
      exact ⟨fun s hs => .error (.refl hs.toPlaced) (.lacking hstart.out hstrict)⟩
    · infer_instance
  unfold Parse.elseBranch
  infer_instance

/-- A conditional begins at the token that is passed first. -/
theorem goes_conditional {valueRequired : Bool} {s : ParseState} (hs : s.Begins G)
    (hne : s.current.kind ≠ .eof) : Goes G s (conditional down valueRequired s) := by
  unfold Parse.conditional
  rw [bind_record]
  have hrecord : s.LeadsTo { s with events := s.events.push (.conditional valueRequired) } :=
    .of_same hs.toPlaced rfl rfl
  refine .after hrecord ((Goes.advance (hs.leadsTo hrecord)).bind fun t s₁ hadvance leads => ?_)
  have hstart : Fact (G.Opens t.span.start) := by
    unfold Parse.advance at hadvance
    split at hadvance
    · cases hadvance
    · cases hadvance
      exact ⟨s.current, hs.here, hne, rfl⟩
  exact Forward.goes s₁ ((hs.leadsTo hrecord).leadsTo leads)

instance label : Obeys (Forward G) (label down) where
  holds s hs := by
    unfold Parse.label
    rw [bind_current]
    cases hkeyword : s.current.keyword? with
    | none => exact Forward.goes s hs
    | some keyword =>
      cases keyword
      case «if» => exact goes_conditional hs (Token.ne_eof_of_keyword? hkeyword)
      all_goals exact Forward.goes s hs

end Branches

/-! ## Operators -/

section Following

variable [hdown : down.Forward G] {left : Expr Span}

/-- An operator is passed only if the parse stands at one. -/
theorem goes_binary {operator : BinaryOperator} {power : Power} {s : ParseState}
    (hs : s.Begins G) (hoperator : BinaryOperator.ofKind? s.current.kind = some operator) :
    Goes G s (binary down left power s) := by
  refine (Goes.advance hs).bind fun t s₁ hadvance leads => ?_
  have ht : t = s.current := by
    unfold Parse.advance at hadvance
    split at hadvance <;> cases hadvance
    rfl
  rw [ht, hoperator]
  exact Forward.goes s₁ (hs.leadsTo leads)

/-- The induction is on the bound of the loop. -/
instance operators {power : Power} {bound : Nat} :
    Obeys (Forward G) (operators down power bound left) := by
  induction bound generalizing left with
  | zero => exact Obeys.exhausted
  | succ bound ih =>
    refine ⟨fun s hs => ?_⟩
    unfold Parse.operators
    rw [bind_atLineBreak]
    split
    · exact Forward.goes s hs
    · rw [bind_currentKind, hdown.rules]
      cases hoperator : BinaryOperator.ofKind? s.current.kind with
      | none =>
        simp only [Rules.standard, hoperator, Option.map_none]
        exact Forward.goes s hs
      | some operator =>
        simp only [Rules.standard, hoperator, Option.map_some]
        split
        · exact Forward.goes s hs
        · exact (goes_binary hs hoperator).bind fun left s₁ _ leads =>
            Forward.goes s₁ (hs.leadsTo leads)

end Following

/-! ## Whole expressions -/

section Whole

variable [hdown : down.Forward G]

theorem primary {kind : TokenKind} {rule : PrimaryRule}
    (hrule : Rules.standardPrimary? kind = some rule) : Obeys (Forward G) (primary down rule) := by
  cases kind <;> cases hrule <;> (unfold Parse.primary; infer_instance)

instance expr {power : Power} : Obeys (Forward G) (expr down power) where
  holds s hs := by
    unfold Parse.expr
    rw [bind_currentKind, bind_record, hdown.rules]
    have hrecord : s.LeadsTo { s with events := s.events.push (.expr power s.current.kind) } :=
      .of_same hs.toPlaced rfl rfl
    refine .after hrecord ?_
    cases hrule : Rules.standardPrimary? s.current.kind with
    | none =>
      simp only [Rules.standard, hrule]
      exact .unexpected hrecord.placed _
    | some rule =>
      simp only [Rules.standard, hrule]
      have hprimary : Obeys (Forward G) (Parse.primary down rule) := primary hrule
      exact Forward.goes _ (hs.leadsTo hrecord)

set_option synthInstance.maxSize 512 in
/-- A conditional begins only at the word for it. -/
instance statementExpr {valueRequired : Bool} :
    Obeys (Forward G) (statementExpr down valueRequired) where
  holds s hs := by
    have hconditional : Obeys (Forward G) (do
        if (← Parse.current).isKeyword .if then Parse.conditional down valueRequired
        else Parse.expr down .default) := by
      refine ⟨fun s hs => ?_⟩
      rw [bind_current]
      split
      · next hword =>
        exact goes_conditional hs (Token.ne_eof_of_keyword? (Token.isKeyword_iff.mp hword))
      · exact Forward.goes s hs
    unfold Parse.statementExpr
    exact Forward.goes s hs

end Whole

/-! ## All levels -/

/-- The calls a level below only go forward, at every number of levels. -/
instance descent {elseRequired : Bool} [hstrict : Fact (elseRequired = true → G.strict)]
    {levels : Nat} : (descent .standard elseRequired levels).Forward G := by
  induction levels with
  | zero =>
    exact { rules := rfl
            strict := hstrict.out
            expr := fun _ => Obeys.exhausted
            statementExpr := fun _ => Obeys.exhausted }
  | succ levels ih =>
    exact { rules := rfl
            strict := hstrict.out
            expr := fun _ => expr
            statementExpr := fun _ => statementExpr }

end Forward

end SurfaceGrammar

import SurfaceGrammar.Proofs.Grammar.Sessions
import SurfaceGrammar.Proofs.Grammar.Tandem
import SurfaceGrammar.Proofs.Parse.Blind
import SurfaceGrammar.Proofs.Parse.Runs

/-!
# Where an expression stops

An expression takes in everything that can go on with it: behind it stands a line break that means
something, or a token that begins no call, member or suffix and is no operator that binds tightly
enough. The loop over the operators is all that the power of an expression bears on. So an
expression of weaker operators is one of tighter operators, with the loop over the weaker ones after
it.

* `ParseState.EndsChain`, `ParseState.EndsExpr`: what stands behind a suffix chain and behind an
  expression.
* `Parse.endsExpr_of_expr`: what stands behind every expression.
* `Parse.operators_split`: a loop over operators, as a loop over tighter ones and another one.
* `Session.expr_stops_and_splits`: where an expression stops and how it goes on, in every session.
-/

namespace SurfaceGrammar

/-! ## Behind an expression -/

namespace ParseState

/-- No call, member or suffix goes on at the state. -/
def EndsChain (s : ParseState) : Prop :=
  s.atLineBreak = true ∨ s.current.kind ∉ [TokenKind.openParen, .dot, .dollar, .hash, .question]

/-- No call, member or suffix goes on at the state, and no operator that binds more tightly than a
power. -/
def EndsExpr (power : Power) (s : ParseState) : Prop :=
  s.atLineBreak = true ∨
    s.current.kind ∉ [TokenKind.openParen, .dot, .dollar, .hash, .question] ∧
      ∀ operator, BinaryOperator.ofKind? s.current.kind = some operator → operator.level ≤ power

theorem EndsExpr.endsChain {power : Power} {s : ParseState} (h : s.EndsExpr power) : s.EndsChain :=
  h.imp_right And.left

end ParseState

namespace Parse

variable {down : Descent} {power : Power} {s s' : ParseState} {e left : Expr Span}

/-- The induction is on the bound of the loop. -/
theorem endsChain_of_suffixChain {bound : Nat} (h : suffixChain down bound left s = .ok e s') :
    s'.EndsChain := by
  induction bound generalizing left s with
  | zero => cases h
  | succ bound ih =>
    obtain ⟨hend, -, rfl⟩ | ⟨-, base, s₁, hrest, -⟩ := ok_of_suffixChain h
    · exact hend
    · exact ih hrest

/-- An operator is followed by its right operand, and nothing goes on behind that. -/
theorem endsChain_of_binary (hdown : ∀ s e s', down.expr power s = .ok e s' → s'.EndsExpr power)
    (h : binary down left power s = .ok e s') : s'.EndsChain := by
  obtain ⟨t, s₁, operator, right, -, -, hright, -⟩ := ok_of_binary h
  exact (hdown s₁ right s' hright).endsChain

/-- The induction is on the bound of the loop. -/
theorem endsExpr_of_operators (hrules : down.rules = .standard)
    (hdown : ∀ power s e s', down.expr power s = .ok e s' → s'.EndsExpr power) {bound : Nat}
    (hs : s.EndsChain) (h : operators down power bound left s = .ok e s') :
    s'.EndsExpr power := by
  induction bound generalizing left s with
  | zero => cases h
  | succ bound ih =>
    obtain ⟨hend, -, rfl⟩ | ⟨-, operator, more, s₁, -, -, hmore, hrest⟩ := ok_of_operators hrules h
    · exact hs.elim .inl fun hchain => hend.imp_right fun hloose => ⟨hchain, hloose⟩
    · exact ih (endsChain_of_binary (hdown operator.level) hmore) hrest

/-- The induction is on the number of levels. -/
theorem endsExpr_of_expr (elseRequired : Bool) (levels : Nat) (power : Power)
    (s : ParseState) (e : Expr Span) (s' : ParseState)
    (h : (descent .standard elseRequired levels).expr power s = .ok e s') :
    s'.EndsExpr power := by
  induction levels generalizing power s e s' with
  | zero => cases h
  | succ levels ih =>
    change Parse.expr (descent .standard elseRequired levels) power s = .ok e s' at h
    obtain ⟨rule, first, s₁, left, s₂, -, -, hchain, h⟩ := ok_of_expr (rules_descent ..) h
    exact endsExpr_of_operators (rules_descent ..) ih (endsChain_of_suffixChain hchain) h

/-! ## Operators of two powers -/

/-- Behind a step of which it is known how many tokens it leaves. -/
theorem placed_of_tandem {β : Type} {lacks : Position → β → Prop} {n : Nat} {m : Parse β} {b : β}
    (h : Tandem .same lacks n (m s) (m s)) (hok : m s = .ok b s') :
    s'.Placed ∧ s'.ahead.length < n := by
  rw [hok] at h
  cases h with
  | ok alike fewer => exact ⟨alike.placed, fewer⟩

/-- The operators after an expression that bind more tightly than a power, by the rules of the
language and with as many levels as the tokens that are left can need. -/
def moreOperators (settings : Settings) (power : Power) (left : Expr Span) : Parse (Expr Span) :=
  bounded .standard settings fun down => operators down power down.bound left

/-- The number of levels and the bound of the loop do not matter, as long as there are enough of
both for the tokens. -/
theorem moreOperators_eq (settings : Settings) (hs : s.Placed) {levels bound : Nat}
    (hlevels : s.ahead.length ≤ levels) (hbound : s.ahead.length < bound) (power : Power)
    (left : Expr Span) :
    operators (descent .standard settings.elseRequired levels) power bound left s =
      moreOperators settings power left s := by
  rw [moreOperators, bounded, bound_descent]
  exact (tandem_operators (tandem_descent_same .same settings.elseRequired hlevels
    (Nat.le_of_lt s.length_ahead_lt_levels)) power bound s.levels (.refl hs) (Nat.le_refl _) hbound
    s.length_ahead_lt_levels).eq.symm

/-- A loop over operators goes on with an operator that binds tightly enough. -/
theorem operators_of_tight (hrules : down.rules = .standard) {operator : BinaryOperator}
    (hbreak : s.atLineBreak = false)
    (hoperator : BinaryOperator.ofKind? s.current.kind = some operator)
    (hlevel : ¬operator.level ≤ power) (bound : Nat) :
    operators down power (bound + 1) left s =
      (binary down left operator.level >>= operators down power bound) s := by
  rw [operators, bind_atLineBreak, hbreak, if_neg Bool.false_ne_true, bind_currentKind, hrules]
  simp only [Rules.standard, hoperator, Option.map_some]
  rw [if_neg hlevel]
  rfl

/-- Elsewhere it has come to its end. -/
theorem operators_or_tight (hrules : down.rules = .standard) (power : Power) (bound : Nat)
    (left : Expr Span) (s : ParseState) :
    operators down power (bound + 1) left s = .ok left s ∨
      ∃ operator, s.atLineBreak = false ∧
        BinaryOperator.ofKind? s.current.kind = some operator ∧ ¬operator.level ≤ power := by
  rw [operators, bind_atLineBreak]
  cases hbreak : s.atLineBreak with
  | true => exact .inl rfl
  | false =>
    rw [if_neg Bool.false_ne_true, bind_currentKind, hrules]
    cases hoperator : BinaryOperator.ofKind? s.current.kind with
    | none =>
      simp only [Rules.standard, hoperator]
      exact .inl rfl
    | some operator =>
      simp only [Rules.standard, hoperator, Option.map_some]
      split
      · exact .inl rfl
      · next hlevel => exact .inr ⟨operator, trivial, rfl, hlevel⟩

/-- A loop over operators is a loop over those that bind more tightly, and then one over all of them
from there on. The induction is on the bound of the first loop. -/
theorem operators_split (settings : Settings) {weaker : Power} (hle : weaker ≤ power)
    {levels bound : Nat} (hs : s.Placed) (hlevels : s.ahead.length ≤ levels)
    (hbound : s.ahead.length < bound) (left : Expr Span) :
    operators (descent .standard settings.elseRequired levels) weaker bound left s =
      (operators (descent .standard settings.elseRequired levels) power bound left >>=
        moreOperators settings weaker) s := by
  induction bound generalizing left s with
  | zero => omega
  | succ bound ih =>
    have hrules := rules_descent .standard settings.elseRequired levels
    have hmore := moreOperators_eq settings hs hlevels hbound weaker left
    have hdown := tandem_descent_same .same settings.elseRequired hlevels hlevels
    generalize descent .standard settings.elseRequired levels = down at hrules hmore hdown ih ⊢
    obtain hend | ⟨operator, hbreak, hoperator, hlevel⟩ :=
      operators_or_tight hrules power bound left s
    · rw [bind_of_ok hend, hmore]
    · have hne : s.current.kind ≠ .eof := TokenKind.ne_of_some hoperator rfl
      have hweaker : ¬operator.level ≤ weaker := fun h => hlevel (Nat.le_trans h hle)
      have hbinary : Tandem .same _ _ (binary down left operator.level s) _ :=
        tandem_binary hdown operator.level (.refl hs) hne (Nat.le_refl _)
      calc operators down weaker (bound + 1) left s
        _ = (binary down left operator.level >>= operators down weaker bound) s :=
          operators_of_tight hrules hbreak hoperator hweaker bound
        _ = (binary down left operator.level >>= fun left =>
              operators down power bound left >>= moreOperators settings weaker) s := by
          refine bind_congr rfl fun right s₁ hright => ?_
          obtain ⟨hs₁, hlt⟩ := placed_of_tandem hbinary hright
          exact ih hs₁ (by omega) (by omega) right
        _ = ((binary down left operator.level >>= operators down power bound) >>=
              moreOperators settings weaker) s := by rw [bind_assoc]
        _ = (operators down power (bound + 1) left >>= moreOperators settings weaker) s :=
          bind_congr (operators_of_tight hrules hbreak hoperator hlevel bound).symm
            fun _ _ _ => rfl

/-! ## Expressions of two powers -/

/-- A step that does the same as another one from another state, in front of the same steps. -/
theorem bind_congr_left {β γ : Type} {x y : Parse β} {t : ParseState} (h : x s = y t)
    (f : β → Parse γ) : (x >>= f) s = (y >>= f) t := by
  cases hy : y t with
  | ok b s₁ => rw [bind_of_ok (h.trans hy), bind_of_ok hy]
  | error failure s₁ => rw [bind_of_error (h.trans hy), bind_of_error hy]

/-- An expression up to its first operator. -/
def operand (down : Descent) (rule : PrimaryRule) : Parse (Expr Span) := do
  let first ← primary down rule
  suffixChain down down.bound first

instance {A : Property} [Compositional A] [Throws A] [down.Obeys A] {rule : PrimaryRule} :
    Obeys A (operand down rule) := by
  unfold operand
  infer_instance

/-- An operand passes a token. -/
theorem placed_of_operand {n : Nat} {kind : TokenKind} {rule : PrimaryRule}
    (hdown : down.Tandem .same n down) (hrule : Rules.standardPrimary? kind = some rule)
    (hs : s.Placed) (hn : s.ahead.length ≤ n) (h : operand down rule s = .ok e s') :
    s'.Placed ∧ s'.ahead.length < s.ahead.length := by
  have hbound := hdown.bound
  obtain ⟨first, s₁, hfirst, hchain⟩ := ok_of_bind h
  obtain ⟨hs₁, hlt₁⟩ := placed_of_tandem (tandem_primary hdown hrule (.refl hs) hn) hfirst
  obtain ⟨hs', hlt⟩ := placed_of_tandem
    (tandem_suffixChain hdown down.bound down.bound (.refl hs₁) (by omega) (by omega) (by omega))
    hchain
  exact ⟨hs', by omega⟩

/-- What was recorded before an operand does not matter. -/
theorem unlogged_operand [down.Obeys Blind] (rule : PrimaryRule) (power : Power) (s : ParseState)
    (events events' : Array Event) :
    unlogged ((operand down rule >>= operators down power down.bound) { s with events }) =
      unlogged ((operand down rule >>= operators down power down.bound)
        { s with events := events' }) :=
  Blind.congr rfl

/-- What an expression does behind its record, by the production for its first token. -/
theorem expr_of_rule (hrules : down.rules = .standard) (power : Power) {rule : PrimaryRule}
    (hrule : Rules.standardPrimary? s.current.kind = some rule) :
    Parse.expr down power s = (operand down rule >>= operators down power down.bound)
      { s with events := s.events.push (.expr power s.current.kind) } := by
  rw [Parse.expr, bind_currentKind, bind_record, hrules, operand, bind_assoc]
  simp only [Rules.standard, hrule]

/-- Before a token with which no expression begins there is none. -/
theorem expr_of_no_rule (hrules : down.rules = .standard) (power : Power)
    (hrule : Rules.standardPrimary? s.current.kind = none) :
    Parse.expr down power s = .error (.error (s.unexpected expressionStart))
      { s with events := s.events.push (.expr power s.current.kind) } := by
  rw [Parse.expr, bind_currentKind, bind_record, hrules]
  simp only [Rules.standard, hrule]
  rfl

/-- An expression is one of tighter operators, and then a loop over the others. The records are set
aside since they tell the power. -/
theorem unlogged_expr_split (settings : Settings) {weaker : Power} (hle : weaker ≤ power)
    (hs : s.Placed) {levels : Nat} (hlevels : s.ahead.length ≤ levels) :
    unlogged (Parse.expr (descent .standard settings.elseRequired levels) weaker s) =
      unlogged ((Parse.expr (descent .standard settings.elseRequired levels) power >>=
        moreOperators settings weaker) s) := by
  have hrules := rules_descent .standard settings.elseRequired levels
  cases hrule : Rules.standardPrimary? s.current.kind with
  | none =>
    rw [expr_of_no_rule hrules weaker hrule, bind_of_error (expr_of_no_rule hrules power hrule)]
    rfl
  | some rule =>
    rw [expr_of_rule hrules weaker hrule, bind_congr_left (expr_of_rule hrules power hrule),
      bind_assoc]
    have hdown := tandem_descent_same .same settings.elseRequired hlevels hlevels
    have hsplit {t : ParseState} (ht : t.Placed) (hlt : t.ahead.length < levels)
        (left : Expr Span) := operators_split settings hle ht (Nat.le_of_lt hlt) hlt left
    rw [unlogged_operand rule weaker s _ (s.events.push (.expr power s.current.kind)),
      bound_descent]
    have hrecorded : ParseState.Placed
        { s with events := s.events.push (.expr power s.current.kind) } := hs.congr rfl rfl
    refine congrArg unlogged (bind_congr rfl fun left s₁ hleft => ?_)
    obtain ⟨hs₁, hlt₁⟩ := placed_of_operand hdown hrule hrecorded (Nat.le_refl _) hleft
    exact hsplit hs₁ (Nat.lt_of_lt_of_le hlt₁ hlevels) left

/-- An expression, as a caller starts it, goes down by a level. -/
theorem bounded_expr (settings : Settings) (power : Power) (s : ParseState) :
    bounded .standard settings (fun down => down.expr power) s =
      Parse.expr (descent .standard settings.elseRequired (2 * s.upcoming.tokens.length + 3))
        power s :=
  rfl

end Parse

/-- The tables of the language, put in front of empty ones, are the tables of the language. -/
theorem Rules.withStandard_bare : Rules.bare.withStandard = .standard := by
  simp only [withStandard, bare, Option.or_none]

/-! ## The main statement -/

/-- In every session with the tables of the language, behind an expression that is read stands a
line break that means something, or a token that begins no call, member or suffix and is no operator
that binds more tightly than the power of the expression. And an expression of a weaker power is one
of the power and then the operators of the weaker one: the result is the same, and so is the state
but for its records. -/
theorem Session.expr_stops_and_splits {source : String} {settings : Settings} {session : Session}
    (h : session.Reached source settings) (hrules : session.rules = .standard) (power : Power) :
    (∀ e s', Parse.bounded session.rules settings (fun down => down.expr power) session.state =
        .ok e s' → s'.EndsExpr power) ∧
    ∀ weaker, weaker ≤ power →
      Parse.unlogged
          (Parse.bounded session.rules settings (fun down => down.expr weaker) session.state) =
        Parse.unlogged
          ((do
            let left ← Parse.bounded session.rules settings fun down => down.expr power
            Parse.bounded session.rules settings fun down =>
              Parse.operators down weaker down.bound left) session.state) := by
  obtain ⟨ended, hstate⟩ := h.state
  rw [hrules]
  refine ⟨fun e s' hs' => ?_, fun weaker hle => ?_⟩
  · unfold Parse.bounded at hs'
    exact Parse.endsExpr_of_expr settings.elseRequired _ power _ e s' hs'
  · have hlt := session.state.length_ahead_lt_levels
    rw [Parse.bounded_expr, Parse.bind_congr_left (Parse.bounded_expr settings power session.state)]
    exact Parse.unlogged_expr_split settings hle hstate.placed (Nat.le_of_lt_succ hlt)

/-- A product is read, and the sum that it begins is not. -/
theorem Session.expr_stops_and_splits_product :
    ∃ session : Session, session.Reached "a * b + c" {} ∧ session.rules = .standard ∧
      (∃ e s', Parse.bounded session.rules {} (fun down => down.expr .additive) session.state =
        .ok e s' ∧ s'.EndsExpr .additive) ∧
      Parse.unlogged
          (Parse.bounded session.rules {} (fun down => down.expr .default) session.state) =
        Parse.unlogged
          ((do
            let left ← Parse.bounded session.rules {} fun down => down.expr .additive
            Parse.bounded session.rules {} fun down =>
              Parse.operators down .default down.bound left) session.state) := by
  obtain ⟨s, hs⟩ : ∃ s, ParseState.start "a * b + c" {} = .ok s :=
    exists_of_isOk (by decide +kernel)
  have hread : ((ParseState.start "a * b + c" {}).toOption.map fun s =>
      match Parse.bounded .standard {} (fun down => down.expr .additive) s with
      | .ok _ _ => true
      | .error _ _ => false) = some true := by decide +kernel
  have hsession : Session.Reached "a * b + c" {} ⟨.standard, s⟩ := by
    rw [← Rules.withStandard_bare]
    exact (Session.Reached.start hs).call .addStandard
  obtain ⟨hstops, hsplits⟩ := Session.expr_stops_and_splits hsession rfl .additive
  refine ⟨_, hsession, rfl, ?_, hsplits .default (by decide)⟩
  rw [hs] at hread
  change some (match Parse.bounded .standard {} (fun down => down.expr .additive) s with
    | .ok _ _ => true
    | .error _ _ => false) = some true at hread
  cases hrun : Parse.bounded .standard {} (fun down => down.expr .additive) s with
  | ok e s' => exact ⟨e, s', rfl, hstops e s' hrun⟩
  | error failure s' =>
    rw [hrun] at hread
    cases hread

end SurfaceGrammar

import SurfaceGrammar.Proofs.Grammar.Direction
import SurfaceGrammar.Proofs.Parse.Fork

/-!
# Productions at a front

A production that stands at a token decides by it. A production that begins with an expression
passes the token or refuses it, and it refuses no plain token of a kind that an expression begins
with. What may follow an expression passes the token or ends before it. And a production that looks
at the token after the current one passes both where it chooses to go on with it.

* `Starts`: what a production that begins with an expression comes to at a front.
* `Parse.starts_expr`, `Parse.starts_statementExpr`, `Parse.starts_statement`: these do.
* `Parse.optional_suffixChain`, `Parse.optional_operators`: what may follow an expression.
* `Parse.clears_declaration_early` and others: a front that was chosen by a look at it.
-/

namespace SurfaceGrammar

/-- What a production that begins with an expression comes to at a front: it passes the token, or
refuses it, which it does not if the token is plain and begins an expression. -/
inductive Starts {β : Type} (strict : Prop) (front : Front) :
    EStateM.Result Failure ParseState β → Prop
  | clears {r : EStateM.Result Failure ParseState β} (clears : Clears strict front r) :
    Starts strict front r
  | refuses {e : Error} {s : ParseState} (expected : e.kind.expected ⊆ expressionStart)
    (odd : front.token.Plain → front.token.kind ∉ expressionStart) :
    Starts strict front (.error (.error e) s)
  | exhausted {s : ParseState} : Starts strict front (.error .exhausted s)

namespace Parse

set_option synthInstance.maxSize 512

variable {β γ : Type} {strict : Prop} {front : Front} {down : Descent} {s : ParseState}
  {t : Token}

/-! ## Expressions at a front -/

theorem starts_bind {m : Parse β} {f : β → Parse γ}
    [∀ b, Obeys (Forward (.anywhere strict)) (f b)]
    (h : Starts strict front (m s)) : Starts strict front ((m >>= f) s) := by
  have hclears : Clears strict front (m s) → Clears strict front ((m >>= f) s) :=
    fun hclears => hclears.bind
  revert hclears
  change (Clears strict front (m s) → Clears strict front (EStateM.bind m f s)) →
    Starts strict front (EStateM.bind m f s)
  unfold EStateM.bind
  generalize m s = r at h
  intro hclears
  cases h with
  | clears clears => exact .clears (hclears clears)
  | refuses expected odd => exact .refuses expected odd
  | exhausted => exact .exhausted

theorem starts_map {m : Parse β} {g : β → γ} (h : Starts strict front (m s)) :
    Starts strict front ((g <$> m) s) := by
  rw [map_eq_pure_bind]
  exact starts_bind h

/-- A token that begins no expression is refused. -/
theorem starts_unexpected (odd : front.token.Plain → front.token.kind ∉ expressionStart) :
    Starts strict front
      (unexpected expressionStart s : EStateM.Result Failure ParseState β) := by
  refine .refuses ?_ odd
  rw [Fork.Outcome.kind_unexpected]
  exact List.Subset.refl _

theorem clears_plainLabel (h : s.Faces front []) (hkind : front.token.kind = .identifier) :
    Clears strict front (plainLabel s) :=
  (Clears.expectOr h hkind (by decide)).bind

theorem clears_boolean (value : Bool) (h : s.Faces front []) (hne : front.token.kind ≠ .eof) :
    Clears strict front (boolean value s) :=
  (Clears.advance h hne).bind

theorem starts_literal (h : s.Faces front [])
    (hrule : Rules.standardPrimary? front.token.kind = some .literal) :
    Starts strict front (literal s) := by
  unfold literal
  rw [bind_current, h.current, List.headD_nil]
  cases hkind : front.token.kind
  case number =>
    dsimp only
    cases hnumber : (Decimal.read? front.token.value.toList).filter Binary64.isFinite with
    | none =>
      refine .refuses (List.nil_subset _) fun hplain => ?_
      obtain ⟨x, hx⟩ := hplain.number hkind
      rw [hnumber] at hx
      cases hx
    | some x => exact .clears (Clears.advance h (hkind ▸ by decide)).bind
  case string => exact .clears (Clears.advance h (hkind ▸ by decide)).bind
  case char =>
    dsimp only
    cases hvalue : front.token.value.toList with
    | nil => exact starts_unexpected fun hplain => absurd hvalue (hplain.char hkind)
    | cons c _ => exact .clears (Clears.advance h (hkind ▸ by decide)).bind
  all_goals
    rw [hkind] at hrule
    cases hrule

section Down

variable [hdown : down.Forward (.anywhere strict)]

theorem clears_conditional (valueRequired : Bool) (h : s.Faces front [])
    (hne : front.token.kind ≠ .eof) : Clears strict front (conditional down valueRequired s) := by
  unfold conditional
  rw [bind_record]
  exact Clears.bind (Clears.advance (h.congr rfl rfl) hne)

theorem clears_function (h : s.Faces front []) (hkind : front.token.kind = .identifier) :
    Clears strict front (function down s) := by
  unfold function
  rw [bind_currentKind, bind_record]
  exact Clears.bind (Clears.expectOr (h.congr rfl rfl) hkind (by decide))

theorem clears_block (kind : BlockKind) (h : s.Faces front [])
    (hkind : front.token.kind = .identifier) : Clears strict front (block down kind s) := by
  unfold block
  rw [bind_record]
  exact Clears.bind (Clears.expectOr (h.congr rfl rfl) hkind (by decide))

theorem clears_set (h : s.Faces front []) (hkind : front.token.kind = .identifier) :
    Clears strict front (set down s) :=
  Clears.bind (Clears.expectOr h hkind (by decide))

theorem clears_mapping (h : s.Faces front []) (hkind : front.token.kind = .identifier) :
    Clears strict front (mapping down s) :=
  Clears.bind (Clears.expectOr h hkind (by decide))

omit hdown in
/-- A word that may open a block is passed, whether it does or not. -/
theorem clears_opensCurly {m m' : Parse β} (h : s.Faces front [])
    (hne : front.token.kind ≠ .eof)
    (hm : ∀ s₁ : ParseState, s₁.Faces front [] → Clears strict front (m s₁))
    (hm' : ∀ s₁ : ParseState, s₁.Faces front [] → Clears strict front (m' s₁)) :
    Clears strict front ((opensCurly >>= fun b => if b then m else m') s) := by
  unfold opensCurly
  rw [bind_assoc, bind_get]
  split
  · rw [pure_bind]
    exact hm' s h
  · rw [bind_assoc]
    refine h.peek_cases (fun e he => .unreadable hne he) fun t s₁ hs₁ => ?_
    rw [pure_bind]
    split
    · exact hm s₁ hs₁
    · exact hm' s₁ hs₁

theorem starts_label (h : s.Faces front []) (hkind : front.token.kind = .identifier) :
    Starts strict front (label down s) := by
  have hne : front.token.kind ≠ .eof := hkind ▸ by decide
  have hplain {s₁ : ParseState} (hs₁ : s₁.Faces front []) :
      Clears strict front (plainLabel s₁) := clears_plainLabel hs₁ hkind
  unfold label
  rw [bind_current, h.current, List.headD_nil]
  cases hkeyword : front.token.keyword? with
  | none => exact .clears (hplain h)
  | some keyword =>
    have hodd (hodd : front.token.Plain) : front.token.kind ∉ expressionStart := by
      rw [hodd.keyword] at hkeyword
      cases hkeyword
    cases keyword
    case true | false => exact .clears (clears_boolean _ h hne)
    case «if» => exact .clears (clears_conditional true h hne)
    case fn => exact .clears (clears_function h hkind)
    case «then» | «else» => exact starts_unexpected hodd
    case «do» | scope =>
      exact .clears (clears_opensCurly h hne (fun _ hs₁ => clears_block _ hs₁ hkind)
        fun _ => hplain)
    case set =>
      exact .clears (clears_opensCurly h hne (fun _ hs₁ => clears_set hs₁ hkind) fun _ => hplain)
    case map =>
      exact .clears (clears_opensCurly h hne (fun _ hs₁ => clears_mapping hs₁ hkind)
        fun _ => hplain)
    case type => exact .clears (hplain h)

theorem clears_tuple (h : s.Faces front []) (hkind : front.token.kind = .openParen) :
    Clears strict front (tuple down s) := by
  unfold tuple
  have hgrouped := Obeys.grouped (A := Forward (.anywhere strict))
  exact Clears.bind (Clears.expectOr h hkind (by decide))

theorem starts_primary {rule : PrimaryRule}
    (hrule : Rules.standardPrimary? front.token.kind = some rule) (h : s.Faces front []) :
    Starts strict front (primary down rule s) := by
  have hliteral : Rules.standardPrimary? front.token.kind = some .literal →
      Starts strict front (literal s) := starts_literal h
  cases hkind : front.token.kind <;> rw [hkind] at hrule hliteral <;> cases hrule
  case number | string | char => exact hliteral rfl
  case identifier => exact starts_label h hkind
  case openParen => exact .clears (clears_tuple h hkind)
  case openBracket | openCurly =>
    exact .clears (Clears.bind (Clears.expectOr h hkind (by decide)))

omit hdown in
theorem not_mem_expressionStart {kind : TokenKind} (h : Rules.standardPrimary? kind = none) :
    kind ∉ expressionStart := by
  cases kind
  case number | string | char | identifier | openParen | openBracket | openCurly => cases h
  all_goals decide

theorem starts_expr (power : Power) (h : s.Faces front []) :
    Starts strict front (expr down power s) := by
  unfold expr
  rw [bind_currentKind, h.current, List.headD_nil, hdown.rules]
  refine h.record_cases fun u hu => ?_
  cases hrule : Rules.standardPrimary? front.token.kind with
  | none =>
    simp only [Rules.standard, hrule]
    exact starts_unexpected fun _ => not_mem_expressionStart hrule
  | some rule =>
    simp only [Rules.standard, hrule]
    have hprimary : Obeys (Forward (.anywhere strict)) (primary down rule) := Forward.primary hrule
    exact starts_bind (starts_primary hrule hu)

/-! ### Declarations and updates -/

theorem clears_declaration (h : s.Faces front []) (hkind : front.token.kind = .identifier) :
    Clears strict front (declaration down s) := by
  unfold declaration
  rw [bind_current, bind_record]
  exact Clears.bind (Clears.expectOr (h.congr rfl rfl) hkind (by decide))

theorem clears_update (h : s.Faces front []) (hkind : front.token.kind = .identifier) :
    Clears strict front (update down s) := by
  unfold update
  rw [bind_current]
  refine h.record_cases fun u hu => ?_
  refine Clears.bind_goes (Clears.expectOr hu hkind (by decide)) fun label s₁ _ hs₁ => ?_
  rw [bind_currentKind]
  cases Updater.ofKind? s₁.current.kind with
  | none => exact .unexpected hs₁.toPlaced _
  | some operator => exact Forward.goes s₁ hs₁

theorem starts_statementExpr (valueRequired : Bool) (h : s.Faces front []) :
    Starts strict front (statementExpr down valueRequired s) := by
  unfold statementExpr
  rw [bind_currentKind]
  refine h.record_cases fun u hu => ?_
  rw [bind_standsAt]
  split
  · next hidentifier =>
    have hkind : front.token.kind = .identifier := by
      simpa [hu.current] using hidentifier
    have hne : front.token.kind ≠ .eof := hkind ▸ by decide
    refine hu.peek_cases (fun e he => .clears (.unreadable hne he)) fun t v hv => ?_
    split
    · exact .clears (clears_declaration hv hkind)
    · split
      · exact .clears (clears_update hv hkind)
      · rw [bind_current]
        split
        · exact .clears (clears_conditional valueRequired hv hne)
        · exact starts_expr .default hv
  · exact starts_expr .default hu

/-! ### Statements -/

theorem clears_typeDefinition (h : s.Faces front []) (hne : front.token.kind ≠ .eof) :
    Clears strict front (typeDefinition down s) :=
  Clears.bind (Clears.advance h hne)

/-- The question whether a type definition begins at a front. -/
theorem typeDefinition_cases (h : s.Faces front []) {f : Bool → Parse β}
    {P : EStateM.Result Failure ParseState β → Prop}
    (hunreadable : ∀ e, front.token.kind ≠ .eof → front.behind.ending = .error e →
      P (.error (.error e) s))
    (htrue : front.token.kind ≠ .eof → ∀ s₁, s₁.Faces front [] → P (f true s₁))
    (hfalse : ∀ s₁, s₁.Faces front [] → P (f false s₁)) :
    P ((beginsTypeDefinition >>= f) s) := by
  unfold beginsTypeDefinition
  rw [bind_assoc, bind_current]
  split
  · next hword =>
    have hne : front.token.kind ≠ .eof := by
      rw [h.current] at hword
      exact Token.ne_eof_of_keyword? (Token.isKeyword_iff.mp hword)
    rw [bind_assoc]
    refine h.peek_cases (fun e he => hunreadable e hne he) fun t u hu => ?_
    rw [pure_bind]
    cases decide (t.kind = .identifier) && !t.newlineBefore with
    | true => exact htrue hne u hu
    | false => exact hfalse u hu
  · exact hfalse s h

/-- What is known of the calls a level below goes on to statements. -/
theorem starts_statementContent (hcall : ∀ u : ParseState, u.Faces front [] →
      Starts strict front (down.statementExpr false u))
    (h : s.Faces front []) : Starts strict front (statementContent down s) :=
  typeDefinition_cases h (fun _ hne he => .clears (.unreadable hne he))
    (fun hne _ hu => .clears (clears_typeDefinition hu hne)) fun u hu => starts_map (hcall u hu)

theorem starts_statement (close : TokenKind) (hcall : ∀ u : ParseState, u.Faces front [] →
      Starts strict front (down.statementExpr false u))
    (h : s.Faces front []) : Starts strict front (statement down close s) := by
  unfold statement
  rw [bind_atStatement, bind_currentKind]
  exact h.record_cases fun u hu => starts_bind (starts_statementContent hcall hu)

/-! ### What may follow an expression -/

variable {base left : Expr Span}

theorem clears_call (h : s.Faces front []) (hkind : front.token.kind = .openParen) :
    Clears strict front (call down base s) :=
  Clears.bind (Clears.expectOr h hkind (by decide))

omit hdown in
theorem clears_suffix {operator : SuffixOperator} (h : s.Faces front [])
    (hoperator : SuffixOperator.ofKind? front.token.kind = some operator) :
    Clears strict front (suffix base s) := by
  have hne : front.token.kind ≠ .eof := TokenKind.ne_of_some hoperator rfl
  unfold suffix
  rw [bind_currentKind, h.current, List.headD_nil, hoperator]
  exact Clears.bind (Clears.advance h hne)

omit hdown in
theorem clears_afterPoint (h : s.Faces front []) (hkind : front.token.kind = .dot) :
    Clears strict front (afterPoint base s) := by
  refine h.peek_cases (fun e he => .unreadable (hkind ▸ by decide) he) fun t u hu => ?_
  split
  · exact Clears.bind (Clears.expectOr hu hkind (by decide))
  · have hoperator : SuffixOperator.ofKind? front.token.kind = some .dot := by
      rw [hkind]
      rfl
    exact clears_suffix hu hoperator

/-- What follows an expression at a front passes the token or ends there. -/
theorem optional_suffixChain (bound : Nat) (h : s.Faces front []) :
    Clears strict front (suffixChain down (bound + 1) base s) ∨
      suffixChain down (bound + 1) base s = .ok base s := by
  unfold suffixChain
  rw [bind_atLineBreak]
  split
  · exact .inr rfl
  · rw [bind_currentKind, h.current, List.headD_nil]
    cases hkind : front.token.kind
    case openParen => exact .inl (Clears.bind (clears_call h hkind))
    case dot => exact .inl (Clears.bind (clears_afterPoint h hkind))
    case dollar | hash | question =>
      exact .inl (Clears.bind (clears_suffix h (by rw [hkind]; rfl)))
    all_goals exact .inr rfl

/-- A binary operator is passed only if the parse stands at one. -/
theorem clears_binary {operator : BinaryOperator} (power : Power) (h : s.Faces front [])
    (hoperator : BinaryOperator.ofKind? front.token.kind = some operator) :
    Clears strict front (binary down left power s) := by
  have hne : front.token.kind ≠ .eof := TokenKind.ne_of_some hoperator rfl
  have hcurrent : s.current = front.token := h.current
  refine Clears.bind_goes (Clears.advance h hne) fun t s₁ hadvance hs₁ => ?_
  obtain ⟨rfl, -⟩ := passes_of_advance h.placed (hcurrent ▸ hne) hadvance
  rw [hcurrent, hoperator]
  exact Forward.goes s₁ hs₁

theorem optional_operators (power : Power) (bound : Nat) (h : s.Faces front []) :
    Clears strict front (operators down power (bound + 1) left s) ∨
      operators down power (bound + 1) left s = .ok left s := by
  unfold operators
  rw [bind_atLineBreak]
  split
  · exact .inr rfl
  · rw [bind_currentKind, h.current, List.headD_nil, hdown.rules]
    cases hoperator : BinaryOperator.ofKind? front.token.kind with
    | none =>
      simp only [Rules.standard, hoperator, Option.map_none]
      exact .inr rfl
    | some operator =>
      simp only [Rules.standard, hoperator, Option.map_some]
      split
      · exact .inr rfl
      · exact .inl (Clears.bind (clears_binary _ h hoperator))

/-! ### A token before a front -/

theorem clears_declaration_early (h : s.Faces front [t]) (ht : t.kind = .identifier)
    (hkind : front.token.kind = .colon) : Clears strict front (declaration down s) := by
  unfold declaration
  rw [bind_current]
  refine h.record_cases fun u hu => hu.expectOr_cases ht fun v hv => ?_
  exact Clears.bind (Clears.expectOr hv hkind (by decide))

theorem clears_update_early (h : s.Faces front [t]) (ht : t.kind = .identifier)
    (hkind : front.token.kind.isUpdater = true) : Clears strict front (update down s) := by
  unfold update
  rw [bind_current]
  refine h.record_cases fun u hu => hu.expectOr_cases ht fun v hv => ?_
  rw [bind_currentKind, hv.current, List.headD_nil]
  cases hupdater : front.token.kind <;> rw [hupdater] at hkind <;> cases hkind
  all_goals exact Clears.bind (Clears.advance hv (hupdater ▸ by decide))

omit hdown in
theorem clears_member_early (h : s.Faces front [t]) (ht : t.kind = .dot)
    (hkind : front.token.kind = .identifier) : Clears strict front (member base s) :=
  h.expectOr_cases ht fun _ hu => Clears.bind (Clears.expectOr hu hkind (by decide))

theorem clears_typeDefinition_early (h : s.Faces front [t])
    (hkind : front.token.kind = .identifier) : Clears strict front (typeDefinition down s) :=
  h.advance_cases fun _ hu => Clears.bind (Clears.expectOr hu hkind (by decide))

theorem clears_blockBody (h : s.Faces front []) (hkind : front.token.kind = .openCurly) :
    Clears strict front (blockBody down s) :=
  Clears.bind (Clears.expectOr h hkind (by decide))

theorem clears_block_early (kind : BlockKind) (h : s.Faces front [t]) (ht : t.kind = .identifier)
    (hkind : front.token.kind = .openCurly) : Clears strict front (block down kind s) := by
  unfold block
  refine h.record_cases fun u hu => hu.expectOr_cases ht fun v hv => ?_
  exact Clears.bind (clears_blockBody hv hkind)

theorem clears_set_early (h : s.Faces front [t]) (ht : t.kind = .identifier)
    (hkind : front.token.kind = .openCurly) : Clears strict front (set down s) :=
  h.expectOr_cases ht fun _ hu => Clears.bind (Clears.expectOr hu hkind (by decide))

theorem clears_mapping_early (h : s.Faces front [t]) (ht : t.kind = .identifier)
    (hkind : front.token.kind = .openCurly) : Clears strict front (mapping down s) :=
  h.expectOr_cases ht fun _ hu => Clears.bind (Clears.expectOr hu hkind (by decide))

end Down

end Parse

end SurfaceGrammar

import SurfaceGrammar.Proofs.Grammar.Balance
import SurfaceGrammar.Proofs.Grammar.Soundness
import SurfaceGrammar.Proofs.Parse.Cursor

/-!
# Where the nodes of a parsed tree stand

Spans are made in three ways: from the spans of two children, from a first token to a closing
one, and from a first token to the last one that was passed. Each production is treated once: the
children that it read form a row, and the node that it builds around them is well placed. The
induction on the number of levels is at the end.

* `Parse.Lays`: every success of a step reads nodes that form a row.
* `Descent.Lays`: the calls a level below do.
* `lays_descent`: they do at every number of levels.
* `Module.wellPlaced_of_parse`: every node of a parsed module is well placed.
-/

namespace SurfaceGrammar

namespace Parse

/-- Every success of a step reads nodes that form a row. -/
def Lays {β : Type} (L : Layout) (m : Parse β) (nodes : β → List Node) : Prop :=
  ∀ ⦃s : ParseState⦄ ⦃b : β⦄ ⦃s' : ParseState⦄, s.StandsIn L → m s = .ok b s' →
    Row L s s' (nodes b)

/-- Every success of a step reads an expression, with nothing but closing parentheses after it. -/
def LaysClosed (L : Layout) (m : Parse (Expr Span)) : Prop :=
  ∀ ⦃s : ParseState⦄ ⦃e : Expr Span⦄ ⦃s' : ParseState⦄, s.StandsIn L → m s = .ok e s' →
    Row L s s' [.expr e] ∧ Closed L e.mark s'.lastEnd

end Parse

/-- The calls a level below read nodes that form a row, by the rules of the language. -/
structure Descent.Lays (L : Layout) (down : Descent) : Prop where
  sound : down.Sound
  expr : ∀ power, Parse.LaysClosed L (down.expr power)
  statementExpr : ∀ valueRequired, Parse.Lays L (down.statementExpr valueRequired) fun e =>
    [.expr e]

namespace Parse

variable {L : Layout} {down : Descent} {s s₁ s₂ s' : ParseState} {t : Token} {e : Expr Span}

theorem LaysClosed.lays {m : Parse (Expr Span)} (h : LaysClosed L m) :
    Lays L m fun e => [.expr e] :=
  fun _ _ _ hs hm => (h hs hm).1

/-- Recording something changes no position. -/
theorem row_of_record (event : Event) (hs : s.StandsIn L) :
    Row L s { s with events := s.events.push event } [] :=
  .of_same hs rfl rfl rfl

/-- An expression that starts with a token of its own and stops where the parse stands. -/
theorem enclosed_expr (ht : Takes L s t s₁) (h : Row L s₁ s' (Node.expr e).children)
    (hspan : e.mark = ⟨t.span.start, s'.lastEnd⟩) (hedges : (Node.expr e).Edges L.tokens) :
    Row L s s' [.expr e] ∧ Closed L e.mark s'.lastEnd :=
  ⟨.enclosed ht h hspan hedges, hspan ▸ .of_stop⟩

/-- What is read after something was recorded. -/
theorem closed_of_record (event : Event) (hs : s.StandsIn L)
    (h : Row L { s with events := s.events.push event } s' [.expr e] ∧
      Closed L e.mark s'.lastEnd) : Row L s s' [.expr e] ∧ Closed L e.mark s'.lastEnd :=
  ⟨(row_of_record event hs).skip h.1, h.2⟩

/-! ## Literals and labels -/

/-- An expression that consists of one token. -/
theorem token_expr (ht : Takes L s t s') (hspan : e.mark = t.span)
    (hchildren : (Node.expr e).children = []) (hedges : (Node.expr e).Edges L.tokens) :
    Row L s s' [.expr e] ∧ Closed L e.mark s'.lastEnd :=
  enclosed_expr ht (hchildren ▸ .refl ht.stands) (by rw [hspan, ht.lastEnd_eq]) hedges

theorem lays_literal : LaysClosed L literal := by
  intro s e s' hs h
  obtain ⟨t, l, hadvance, rfl, hl⟩ := ok_of_literal h
  have hne : s.current.kind ≠ .eof := by
    obtain ⟨hkind, -⟩ | ⟨hkind, -⟩ | ⟨hkind, -⟩ := hl <;> rw [hkind] <;> decide
  exact token_expr (takes_of_advance hs hne hadvance) rfl rfl trivial

theorem closed_of_boolean (value : Bool) (hs : s.StandsIn L) (hne : s.current.kind ≠ .eof)
    (h : boolean value s = .ok e s') : Row L s s' [.expr e] ∧ Closed L e.mark s'.lastEnd := by
  obtain ⟨t, hadvance, rfl⟩ := ok_of_boolean h
  exact token_expr (takes_of_advance hs hne hadvance) rfl rfl trivial

theorem lays_plainLabel : LaysClosed L plainLabel := by
  intro s e s' hs h
  obtain ⟨t, hexpect, rfl⟩ := ok_of_plainLabel h
  exact token_expr (takes_of_expect hs (by decide) hexpect).1 rfl rfl trivial

/-! ## Delimited lists -/

section Delimited

variable {β : Type} {element : Parse β} {node : β → Node} {C : β → Position → Prop}
  {close : TokenKind}

/-- Elements form a row. What holds of an element where it ends holds of a single element without
a comma. The induction is on the bound of the loop. -/
theorem row_of_elements
    (helement : ∀ ⦃s x s'⦄, s.StandsIn L → element s = .ok x s' →
      Row L s s' [node x] ∧ C x s'.lastEnd)
    (bound : Nat) (afterComma : Bool) {xs : List β × Bool} (hs : s.StandsIn L)
    (h : elements close element bound afterComma s = .ok xs s') :
    Row L s s' (xs.1.map node) ∧ (xs.1 = [] → xs.2 = afterComma) ∧
      ∀ x, xs = ([x], false) → C x s'.lastEnd := by
  induction bound generalizing afterComma s s' xs with
  | zero => cases h
  | succ bound ih =>
    obtain ⟨-, rfl, rfl⟩ | ⟨-, x, s₁, hx, hround⟩ := ok_of_elements h
    · refine ⟨.refl hs, fun _ => rfl, fun y hy => ?_⟩
      cases hy
    · obtain ⟨hrow, hC⟩ := helement hs hx
      obtain ⟨-, rfl, rfl⟩ | ⟨hcomma, t, s₂, ⟨rest, trailing⟩, hadvance, hrest, rfl⟩ := hround
      · refine ⟨hrow, fun hnil => absurd hnil (List.cons_ne_nil x []), fun y hy => ?_⟩
        cases hy
        exact hC
      · have ht := takes_of_advance_kind hrow.stands hcomma (by decide) hadvance
        obtain ⟨hrows, htrailing, -⟩ := ih true ht.stands hrest
        refine ⟨hrow.trans (ht.skip hrows), fun hnil => absurd hnil (List.cons_ne_nil x rest),
          fun y hy => ?_⟩
        cases hy
        cases htrailing rfl

/-- Elements form a row, after which the closing delimiter is passed. -/
theorem row_of_delimited
    (helement : ∀ ⦃s x s'⦄, s.StandsIn L → element s = .ok x s' →
      Row L s s' [node x] ∧ C x s'.lastEnd)
    (bound : Nat) (hclose : close ≠ .eof) {list : Delimited β} (hs : s.StandsIn L)
    (h : delimited bound close element s = .ok list s') :
    ∃ s₁, Row L s s₁ (list.elements.map node) ∧ Takes L s₁ list.closing s' ∧
      list.closing.kind = close ∧
      ∀ x, list.elements = [x] → list.trailingComma = false → C x s₁.lastEnd := by
  obtain ⟨xs, comma, k⟩ := list
  obtain ⟨s₁, hxs, hk⟩ := ok_of_delimited h
  have hinside : Row L s { s with groupDepth := s.groupDepth + 1, inReturnType := false } [] :=
    .of_same hs rfl rfl rfl
  obtain ⟨hrow, -, hsingle⟩ := row_of_elements helement bound false hinside.stands hxs
  have hall : Row L s { s₁ with
      groupDepth := s₁.groupDepth - 1, inReturnType := s.inReturnType } (xs.map node) :=
    (hinside.skip hrow).congr rfl rfl rfl
  obtain ⟨ht, hkind⟩ := takes_of_expectOr hall.stands hclose hk
  refine ⟨_, hall, ht, hkind, fun x hx hcomma => hsingle x ?_⟩
  rw [← hx, ← hcomma]

/-- Elements form a row, and the closing delimiter is the last token that is passed. -/
theorem row_of_parts (helement : Lays L element fun x => [node x]) (bound : Nat)
    (hclose : close ≠ .eof) {list : Delimited β} (hs : s.StandsIn L)
    (h : delimited bound close element s = .ok list s') :
    Row L s s' (list.elements.map node) ∧ s'.lastEnd = list.closing.span.stop := by
  obtain ⟨s₁, hrow, ht, -, -⟩ := row_of_delimited (C := fun _ _ => True)
    (fun _ _ _ hs hx => ⟨helement hs hx, trivial⟩) bound hclose hs h
  exact ⟨hrow.last ht.toRow, ht.lastEnd_eq⟩

end Delimited

/-! ## Delimited expressions -/

section Composite

variable (hdown : down.Lays L)

include hdown

/-- Expressions between delimiters. -/
theorem row_of_exprs {close : TokenKind} (hclose : close ≠ .eof)
    {list : Delimited (Expr Span)} (hs : s.StandsIn L)
    (h : delimited down.bound close (down.expr .default) s = .ok list s') :
    ∃ s₁, Row L s s₁ (list.elements.map Node.expr) ∧ Takes L s₁ list.closing s' ∧
      list.closing.kind = close ∧
      ∀ x, list.elements = [x] → list.trailingComma = false → Closed L x.mark s₁.lastEnd :=
  row_of_delimited (hdown.expr .default) down.bound hclose hs h

theorem lays_entry : Lays L (entry down) fun x => [.entry x] := by
  intro s x s' hs h
  obtain ⟨key, s₁, o, s₂, value, hkey, ho, hvalue, rfl⟩ := ok_of_entry h
  obtain ⟨hrow, -⟩ := hdown.expr .default hs hkey
  obtain ⟨ht, -⟩ := takes_of_expect hrow.stands (by decide) ho
  obtain ⟨hrow', -⟩ := hdown.expr .default ht.stands hvalue
  exact (hrow.trans (ht.skip hrow')).joined rfl rfl trivial

theorem lays_field : Lays L (field down) fun x => [.field x] := by
  intro s x s' hs h
  obtain ⟨n, s₁, o, s₂, value, hn, ho, hvalue, rfl⟩ := ok_of_field h
  obtain ⟨ht, -⟩ := takes_of_expect hs (by decide) hn
  obtain ⟨ht', -⟩ := takes_of_expect ht.stands (by decide) ho
  obtain ⟨hrow, -⟩ := hdown.expr .default ht'.stands hvalue
  exact .labelled ht (ht'.skip hrow) rfl rfl trivial

theorem lays_typeAfterColon : Lays L (typeAfterColon down) Node.optional := by
  intro s o s' hs h
  obtain ⟨-, rfl, rfl⟩ | ⟨hcolon, t, s₁, type, ht, htype, rfl⟩ := ok_of_typeAfterColon h
  · exact .refl hs
  · have ht := takes_of_advance_kind hs hcolon (by decide) ht
    obtain ⟨hrow, -⟩ := hdown.expr .default ht.stands htype
    exact ht.skip hrow

theorem lays_parameter : Lays L (parameter down) fun x => [.parameter x] := by
  intro s x s' hs h
  obtain ⟨n, s₁, type, hn, htype, rfl⟩ := ok_of_parameter h
  obtain ⟨ht, -⟩ := takes_of_expect hs (by decide) hn
  exact .enclosed ht (lays_typeAfterColon hdown ht.stands htype) rfl trivial

theorem lays_tuple : LaysClosed L (tuple down) := by
  intro s e s' hs h
  obtain ⟨o, s₁, list, ho, hlist, hform⟩ := ok_of_tuple h
  obtain ⟨ht, -⟩ := takes_of_expect hs (by decide) ho
  obtain ⟨s₂, hrow, ht', hclosing, hsingle⟩ := row_of_exprs hdown (by decide) ht.stands hlist
  obtain ⟨hone, hcomma⟩ | ⟨-, rfl⟩ := hform
  -- Parentheses around one expression leave no trace but the one that closes them.
  · rw [hone] at hrow
    exact ⟨(ht.skip hrow).last ht'.toRow,
      (hsingle _ hone hcomma).takes ht' hrow.stands hclosing⟩
  · exact enclosed_expr ht (hrow.last ht'.toRow) (by rw [ht'.lastEnd_eq]; rfl) trivial

theorem lays_array : LaysClosed L (array down) := by
  intro s e s' hs h
  obtain ⟨o, s₁, list, ho, hlist, rfl⟩ := ok_of_array h
  obtain ⟨ht, -⟩ := takes_of_expect hs (by decide) ho
  obtain ⟨hrow, hlast⟩ := row_of_parts (hdown.expr .default).lays _ (by decide) ht.stands hlist
  exact enclosed_expr ht hrow (by rw [hlast]; rfl) trivial

theorem lays_object : LaysClosed L (object down) := by
  intro s e s' hs h
  obtain ⟨o, s₁, list, ho, hlist, rfl⟩ := ok_of_object h
  obtain ⟨ht, -⟩ := takes_of_expect hs (by decide) ho
  obtain ⟨hrow, hlast⟩ := row_of_parts (lays_field hdown) _ (by decide) ht.stands hlist
  exact enclosed_expr ht hrow (by rw [hlast]; rfl) trivial

theorem lays_set : LaysClosed L (set down) := by
  intro s e s' hs h
  obtain ⟨k, s₁, o, s₂, list, hk, ho, hlist, rfl⟩ := ok_of_set h
  obtain ⟨ht, -⟩ := takes_of_expect hs (by decide) hk
  obtain ⟨ht', -⟩ := takes_of_expect ht.stands (by decide) ho
  obtain ⟨hrow, hlast⟩ :=
    row_of_parts (hdown.expr .default).lays _ (by decide) ht'.stands hlist
  exact enclosed_expr ht (ht'.skip hrow) (by rw [hlast]; rfl) trivial

theorem lays_mapping : LaysClosed L (mapping down) := by
  intro s e s' hs h
  obtain ⟨k, s₁, o, s₂, list, hk, ho, hlist, rfl⟩ := ok_of_mapping h
  obtain ⟨ht, -⟩ := takes_of_expect hs (by decide) hk
  obtain ⟨ht', -⟩ := takes_of_expect ht.stands (by decide) ho
  obtain ⟨hrow, hlast⟩ := row_of_parts (lays_entry hdown) _ (by decide) ht'.stands hlist
  exact enclosed_expr ht (ht'.skip hrow) (by rw [hlast]; rfl) trivial

end Composite

/-! ## Statements and blocks -/

section Statements

/-- The question whether a type definition begins passes no token. -/
theorem row_of_beginsTypeDefinition {b : Bool} (hs : s.StandsIn L)
    (h : beginsTypeDefinition s = .ok b s') :
    Row L s s' [] ∧ (b = true → s'.current.kind ≠ .eof) := by
  obtain ⟨-, hcurrent, hbegins⟩ := found_of_beginsTypeDefinition hs.toPlaced h
  refine ⟨?_, fun hb heof => ?_⟩
  · obtain ⟨-, -, rfl⟩ | ⟨-, next, hnext, -⟩ := ok_of_beginsTypeDefinition h
    · exact .refl hs
    · exact (row_of_peek hs hnext).1
  · rw [hcurrent, ← ParseState.ahead_eq_nil] at heof
    rw [hb, heof] at hbegins
    cases hbegins

variable (hdown : down.Lays L)

include hdown

theorem row_of_typeDefinition {x : Stmt Span} (hs : s.StandsIn L) (hne : s.current.kind ≠ .eof)
    (h : typeDefinition down s = .ok x s') : Row L s s' [.stmt x] := by
  obtain ⟨k, s₁, n, s₂, a, s₃, definition, hk, hn, ha, hdefinition, rfl⟩ :=
    ok_of_typeDefinition h
  have htk := takes_of_advance hs hne hk
  obtain ⟨htn, -⟩ := takes_of_expect htk.stands (by decide) hn
  obtain ⟨hta, -⟩ := takes_of_expect htn.stands (by decide) ha
  obtain ⟨hrow, -⟩ := hdown.expr .default hta.stands hdefinition
  exact .enclosed htk (htn.skip (hta.skip hrow)) rfl trivial

theorem lays_statementContent : Lays L (statementContent down) fun x => [.stmt x] := by
  intro s x s' hs h
  obtain ⟨b, s₁, hb, hform⟩ := ok_of_statementContent h
  obtain ⟨hrow, hne⟩ := row_of_beginsTypeDefinition hs hb
  obtain ⟨htype, h⟩ | ⟨-, e, he, rfl⟩ := hform
  · exact hrow.skip (row_of_typeDefinition hdown hrow.stands (hne htype) h)
  · exact hrow.skip ((hdown.statementExpr false hrow.stands he).covered rfl rfl trivial)

omit hdown in
theorem lays_terminator (close : TokenKind) : Lays L (terminator close) fun _ => [] := by
  intro s u s' hs h
  obtain ⟨hsemicolon, t, ht⟩ | ⟨-, rfl, -⟩ := ok_of_terminator h
  · exact (takes_of_advance_kind hs hsemicolon (by decide) ht).toRow
  · exact .refl hs

theorem lays_statement (close : TokenKind) : Lays L (statement down close) fun x => [.stmt x] := by
  intro s x s' hs h
  obtain ⟨s₁, _, hcontent, hterminator⟩ := ok_of_statement h
  have hrecord := row_of_record (.statement s.current.kind) hs
  have hrow := lays_statementContent hdown hrecord.stands hcontent
  exact hrecord.skip (hrow.last (lays_terminator close hrow.stands hterminator))

/-- Statements form a row. The induction is on the bound of the loop. -/
theorem lays_statements (close : TokenKind) (bound : Nat) :
    Lays L (statements down close bound) fun body => body.map .stmt := by
  induction bound with
  | zero =>
    intro s body s' hs h
    cases h
  | succ bound ih =>
    intro s body s' hs h
    obtain ⟨hsemicolon, t, s₁, ht, h⟩ | ⟨-, rfl, rfl⟩ |
      ⟨-, -, first, s₁, rest, hfirst, hrest, rfl⟩ := ok_of_statements h
    · have ht := takes_of_advance_kind hs hsemicolon (by decide) ht
      exact ht.skip (ih ht.stands h)
    · exact .refl hs
    · have hrow := lays_statement hdown close hs hfirst
      exact hrow.trans (ih hrow.stands hrest)

theorem lays_blockBody : Lays L (blockBody down) fun body => body.map .stmt := by
  intro s body s' hs h
  obtain ⟨o, s₁, s₄, k, s₃, ho, hstatements, hk, rfl⟩ := ok_of_blockBody h
  obtain ⟨hto, -⟩ := takes_of_expect hs (by decide) ho
  have henter : Row L s₁ { s₁ with groupDepth := 0 } [] := .of_same hto.stands rfl rfl rfl
  have hrow := henter.skip (lays_statements hdown .closeCurly _ henter.stands hstatements)
  have hexit : Row L s₁ { s₄ with groupDepth := s₁.groupDepth } (body.map .stmt) :=
    hrow.congr rfl rfl rfl
  obtain ⟨htk, -⟩ := takes_of_expect hexit.stands (by decide) hk
  exact hto.skip ((hexit.last htk.toRow).congr rfl rfl rfl)

end Statements

/-! ## Functions, blocks and conditionals -/

section Branches

variable (hdown : down.Lays L)

include hdown

theorem lays_functionBody (typed : Bool) : Lays L (functionBody down typed) Body.nodes := by
  intro s body s' hs h
  obtain ⟨hkind, t, s₁, value, ht, hvalue, rfl⟩ | ⟨-, inner, hinner, rfl⟩ := ok_of_functionBody h
  · have ht := takes_of_advance_kind hs hkind (by decide) ht
    exact ht.skip (hdown.statementExpr true ht.stands hvalue)
  · exact lays_blockBody hdown hs hinner

omit hdown in
theorem lays_functionName : Lays L functionName fun _ => [] := by
  intro s name s' hs h
  obtain ⟨-, rfl, rfl⟩ | ⟨hkind, t, ht, rfl⟩ := ok_of_functionName h
  · exact .refl hs
  · exact (takes_of_advance_kind hs hkind (by decide) ht).toRow

theorem lays_function : LaysClosed L (function down) := by
  intro s e s' hs h
  obtain ⟨k, s₁, name, s₂, o, s₃, list, s₄, type, s₅, body, s₆, hk, hname, ho, hlist, htype, hbody,
    rfl, rfl⟩ := ok_of_function h
  refine closed_of_record (.function s.current.kind) hs ?_
  obtain ⟨htk, -⟩ := takes_of_expect (row_of_record _ hs).stands (by decide) hk
  have hrown := lays_functionName htk.stands hname
  obtain ⟨hto, -⟩ := takes_of_expectOr hrown.stands (by decide) ho
  obtain ⟨hparameters, -⟩ := row_of_parts (lays_parameter hdown) _ (by decide) hto.stands hlist
  have henter : Row L s₄ { s₄ with inReturnType := true } [] :=
    .of_same hparameters.stands rfl rfl rfl
  have htyped := henter.skip (lays_typeAfterColon hdown henter.stands htype)
  have hswitch : Row L s₅ { s₅ with inReturnType := false } [] :=
    .of_same htyped.stands rfl rfl rfl
  have hbodied := hswitch.skip (lays_functionBody hdown _ hswitch.stands hbody)
  have hexit : Row L s₅ { s₆ with inReturnType := s₄.inReturnType } body.nodes :=
    hbodied.congr rfl rfl rfl
  have hall := hrown.skip (hto.skip (hparameters.trans (htyped.trans hexit)))
  exact enclosed_expr htk hall rfl trivial

theorem lays_block (kind : BlockKind) : LaysClosed L (block down kind) := by
  intro s e s' hs h
  obtain ⟨k, s₁, body, hk, hbody, rfl⟩ := ok_of_block h
  refine closed_of_record (.block kind) hs ?_
  obtain ⟨ht, -⟩ := takes_of_expect (row_of_record _ hs).stands (by decide) hk
  exact enclosed_expr ht (lays_blockBody hdown ht.stands hbody) rfl trivial

omit hdown in
theorem lays_skipThen : Lays L skipThen fun _ => [] := by
  intro s u s' hs h
  obtain ⟨-, rfl⟩ | ⟨hword, t, ht⟩ := ok_of_skipThen h
  · exact .refl hs
  · have hkind := Token.kind_of_keyword? (Token.isKeyword_iff.mp hword)
    exact (takes_of_advance_kind hs hkind (by decide) ht).toRow

theorem lays_elseBranch (valueRequired : Bool) (start : Position) :
    Lays L (elseBranch down valueRequired start) Node.optional := by
  intro s o s' hs h
  obtain ⟨-, -, rfl, rfl⟩ | ⟨hword, t, s₁, branch, ht, hbranch, rfl⟩ := ok_of_elseBranch h
  · exact .refl hs
  · have hkind := Token.kind_of_keyword? (Token.isKeyword_iff.mp hword)
    have ht := takes_of_advance_kind hs hkind (by decide) ht
    exact ht.skip (hdown.statementExpr valueRequired ht.stands hbranch)

theorem closed_of_conditional {valueRequired : Bool} (hs : s.StandsIn L)
    (hne : s.current.kind ≠ .eof) (h : conditional down valueRequired s = .ok e s') :
    Row L s s' [.expr e] ∧ Closed L e.mark s'.lastEnd := by
  obtain ⟨k, s₁, condition, s₂, _, s₃, thenBranch, s₄, otherwise, hk, hcondition, hthen,
    hthenBranch, hotherwise, rfl⟩ := ok_of_conditional h
  refine closed_of_record (.conditional valueRequired) hs ?_
  have htk := takes_of_advance (row_of_record _ hs).stands hne hk
  obtain ⟨hrowc, -⟩ := hdown.expr .default htk.stands hcondition
  have hrowsep := lays_skipThen hrowc.stands hthen
  have hrowt := hdown.statementExpr valueRequired hrowsep.stands hthenBranch
  have hrowe := lays_elseBranch hdown valueRequired _ hrowt.stands hotherwise
  exact enclosed_expr htk (hrowc.trans (hrowsep.skip (hrowt.trans hrowe))) rfl trivial

omit hdown in
theorem lays_opensCurly : Lays L opensCurly fun _ => [] := by
  intro s b s' hs h
  obtain ⟨-, -, rfl⟩ | ⟨-, next, hnext, -⟩ := ok_of_opensCurly h
  · exact .refl hs
  · exact (row_of_peek hs hnext).1

omit hdown in
/-- A word that opens a block, a set or a map, or is a plain label. -/
theorem lays_opener {production : Parse (Expr Span)} (hproduction : LaysClosed L production) :
    LaysClosed L (do if ← opensCurly then production else plainLabel) := by
  intro s e s' hs h
  obtain ⟨b, s₁, hb, h⟩ := ok_of_bind h
  have hrow := lays_opensCurly hs hb
  split at h
  · obtain ⟨hrow', hclosed⟩ := hproduction hrow.stands h
    exact ⟨hrow.skip hrow', hclosed⟩
  · obtain ⟨hrow', hclosed⟩ := lays_plainLabel hrow.stands h
    exact ⟨hrow.skip hrow', hclosed⟩

theorem lays_label : LaysClosed L (label down) := by
  intro s e s' hs h
  unfold label at h
  rw [bind_current] at h
  cases hword : s.current.keyword? with
  | none =>
    rw [hword] at h
    exact lays_plainLabel hs h
  | some keyword =>
    have hne : s.current.kind ≠ .eof := Token.ne_eof_of_keyword? hword
    rw [hword] at h
    cases keyword with
    | «if» => exact closed_of_conditional hdown hs hne h
    | «then» | «else» => exact absurd h unexpected_ne_ok
    | fn => exact lays_function hdown hs h
    | type => exact lays_plainLabel hs h
    | «do» => exact lays_opener (lays_block hdown .do) hs h
    | scope => exact lays_opener (lays_block hdown .scope) hs h
    | set => exact lays_opener (lays_set hdown) hs h
    | map => exact lays_opener (lays_mapping hdown) hs h
    | true => exact closed_of_boolean true hs hne h
    | false => exact closed_of_boolean false hs hne h

end Branches

/-! ## Declarations and updates -/

section Changes

variable (hdown : down.Lays L)

include hdown

theorem lays_declaredType : Lays L (declaredType down) Node.optional := by
  intro s o s' hs h
  obtain ⟨-, rfl, rfl⟩ | ⟨-, type, htype, rfl⟩ := ok_of_declaredType h
  · exact .refl hs
  · exact (hdown.expr .default hs htype).1

theorem lays_declaration : LaysClosed L (declaration down) := by
  intro s e s' hs h
  obtain ⟨n, s₁, o, s₂, type, s₃, a, s₄, value, hn, ho, htype, ha, hvalue, rfl⟩ :=
    ok_of_declaration h
  refine closed_of_record (.declaration s.current.value) hs ?_
  obtain ⟨htn, -⟩ := takes_of_expect (row_of_record _ hs).stands (by decide) hn
  obtain ⟨hto, -⟩ := takes_of_expect htn.stands (by decide) ho
  have hrowt := lays_declaredType hdown hto.stands htype
  obtain ⟨hta, -⟩ := takes_of_expect hrowt.stands (by decide) ha
  obtain ⟨hrowv, -⟩ := hdown.expr .default hta.stands hvalue
  exact enclosed_expr htn (hto.skip (hrowt.trans (hta.skip hrowv))) rfl trivial

theorem lays_update : LaysClosed L (update down) := by
  intro s e s' hs h
  obtain ⟨n, s₁, operator, o, s₂, value, hn, hupdater, ho, hvalue, rfl⟩ := ok_of_update h
  refine closed_of_record (.update s.current.value) hs ?_
  obtain ⟨htn, -⟩ := takes_of_expect (row_of_record _ hs).stands (by decide) hn
  have hto := takes_of_advance htn.stands (TokenKind.ne_of_some hupdater rfl) ho
  obtain ⟨hrow, -⟩ := hdown.expr .default hto.stands hvalue
  exact enclosed_expr htn (hto.skip hrow) rfl trivial

end Changes

/-! ## Calls, members, suffixes and operators -/

section Following

variable {base left : Expr Span} {s₀ : ParseState}

/-- An expression that goes on from another one and stops with a token that was just passed. -/
theorem extended_expr {ns : List Node} (h : Row L s₀ s' (.expr base :: ns))
    (hchildren : (Node.expr e).children = .expr base :: ns)
    (hspan : e.mark = ⟨base.mark.start, t.span.stop⟩) (hmem : t ∈ L.tokens)
    (hlast : s'.lastEnd = t.span.stop) (hedges : (Node.expr e).Edges L.tokens) :
    Row L s₀ s' [.expr e] ∧ Closed L e.mark s'.lastEnd := by
  rw [← hlast] at hspan
  exact ⟨h.extended hchildren hspan ⟨t, hmem, hlast⟩ hedges, hspan ▸ .of_stop⟩

/-- The token at which the parse stands follows the expression that was read before. -/
theorem isFollowedBy_of_row (hbase : Row L s₀ s [.expr base] ∧ Closed L base.mark s.lastEnd)
    (ht : Takes L s t s₁) : base.mark.IsFollowedBy L.tokens t :=
  hbase.2.isFollowedBy ht hbase.1.stands (hbase.1.before _ List.mem_cons_self)

/-- The parenthesis that closes a call belongs to the one that opens its arguments. -/
theorem row_of_call (hdown : down.Lays L)
    (hbase : Row L s₀ s [.expr base] ∧ Closed L base.mark s.lastEnd)
    (h : call down base s = .ok e s') :
    Row L s₀ s' [.expr e] ∧ Closed L e.mark s'.lastEnd := by
  obtain ⟨o, s₁, list, ho, hlist, rfl⟩ := ok_of_call h
  obtain ⟨hto, hopening⟩ := takes_of_expect hbase.1.stands (by decide) ho
  obtain ⟨s₃, hrow, htk, hclosing, -⟩ := row_of_exprs hdown (by decide) hto.stands hlist
  have hencloses : Encloses L.tokens o list.closing := by
    obtain ⟨w, hw, hderives⟩ := finds_delimited .expr (finds_element hdown.sound) down.bound
      (by decide) hto.stands.toPlaced hlist
    obtain ⟨inside, k, hwords, -, hinside⟩ := Balanced.of_derives hderives
    obtain ⟨passed, htokens, -⟩ := hbase.1.stands.split
    obtain ⟨passed', htokens', -⟩ := hrow.stands.split
    rw [hto.ahead, hw.ahead, hwords] at htokens
    rw [htk.ahead] at htokens'
    -- Both lists of tokens end with the closing parenthesis.
    have hwhole : ((passed ++ o :: inside) ++ [k]) ++ s'.ahead =
        (passed' ++ [list.closing]) ++ s'.ahead := by
      simpa using htokens.symm.trans htokens'
    have hsame := List.append_cancel_right hwhole
    obtain ⟨-, hk⟩ := List.append_inj' hsame rfl
    cases hk
    exact ⟨hopening, hclosing, passed, inside, s'.ahead, by simpa using htokens, hinside⟩
  exact extended_expr (hbase.1.trans (hto.skip (hrow.last htk.toRow))) rfl rfl htk.mem
    htk.lastEnd_eq ⟨o, list.closing, isFollowedBy_of_row hbase hto, hencloses, rfl⟩

theorem row_of_member (hbase : Row L s₀ s [.expr base] ∧ Closed L base.mark s.lastEnd)
    (h : member base s = .ok e s') : Row L s₀ s' [.expr e] ∧ Closed L e.mark s'.lastEnd := by
  obtain ⟨o, s₁, n, ho, hn, rfl⟩ := ok_of_member h
  obtain ⟨hto, hpoint⟩ := takes_of_expect hbase.1.stands (by decide) ho
  obtain ⟨htn, hnamed⟩ := takes_of_expect hto.stands (by decide) hn
  have htogether : [o, n] <:+: L.tokens := by
    obtain ⟨passed, htokens, -⟩ := hbase.1.stands.split
    exact ⟨passed, s'.ahead, by rw [htokens, hto.ahead, htn.ahead]; simp⟩
  exact extended_expr (hbase.1.last (hto.skip htn.toRow)) rfl rfl htn.mem htn.lastEnd_eq
    ⟨o, n, isFollowedBy_of_row hbase hto, hpoint, htogether, hnamed, rfl, rfl⟩

theorem row_of_suffix (hbase : Row L s₀ s [.expr base] ∧ Closed L base.mark s.lastEnd)
    (h : suffix base s = .ok e s') : Row L s₀ s' [.expr e] ∧ Closed L e.mark s'.lastEnd := by
  obtain ⟨operator, t, hsymbol, ht, rfl⟩ := ok_of_suffix h
  have ht := takes_of_advance hbase.1.stands (TokenKind.ne_of_some hsymbol rfl) ht
  rw [← ht.current] at hsymbol
  exact extended_expr (hbase.1.last ht.toRow) rfl rfl ht.mem ht.lastEnd_eq
    ⟨t, isFollowedBy_of_row hbase ht, hsymbol, rfl⟩

/-- A step that passes no token after an expression. -/
theorem closed_of_peek (hbase : Row L s₀ s [.expr base] ∧ Closed L base.mark s.lastEnd)
    (h : peek s = .ok t s') : Row L s₀ s' [.expr base] ∧ Closed L base.mark s'.lastEnd := by
  obtain ⟨hrow, hlast⟩ := row_of_peek hbase.1.stands h
  exact ⟨hbase.1.last hrow, hlast ▸ hbase.2⟩

theorem row_of_afterPoint (hbase : Row L s₀ s [.expr base] ∧ Closed L base.mark s.lastEnd)
    (h : afterPoint base s = .ok e s') : Row L s₀ s' [.expr e] ∧ Closed L e.mark s'.lastEnd := by
  obtain ⟨next, s₁, hnext, ⟨-, h⟩ | ⟨-, h⟩⟩ := ok_of_afterPoint h
  · exact row_of_member (closed_of_peek hbase hnext) h
  · exact row_of_suffix (closed_of_peek hbase hnext) h

/-- Calls, members and suffixes extend the expression before them. The induction is on the bound
of the loop. -/
theorem row_of_suffixChain (hdown : down.Lays L) (bound : Nat)
    (hbase : Row L s₀ s [.expr base] ∧ Closed L base.mark s.lastEnd)
    (h : suffixChain down bound base s = .ok e s') :
    Row L s₀ s' [.expr e] ∧ Closed L e.mark s'.lastEnd := by
  induction bound generalizing base s with
  | zero => cases h
  | succ bound ih =>
    obtain ⟨-, rfl, rfl⟩ | ⟨-, base', s₁, hrest, hround⟩ := ok_of_suffixChain h
    · exact hbase
    · refine ih ?_ hrest
      obtain ⟨-, hcall⟩ | ⟨-, hpoint⟩ | ⟨-, hsuffix⟩ := hround
      · exact row_of_call hdown hbase hcall
      · exact row_of_afterPoint hbase hpoint
      · exact row_of_suffix hbase hsuffix

/-- Operators join the expression before them with their right operands. The induction is on the
bound of the loop. -/
theorem row_of_operators (hdown : down.Lays L) (power : Power) (bound : Nat)
    (hleft : Row L s₀ s [.expr left] ∧ Closed L left.mark s.lastEnd)
    (h : operators down power bound left s = .ok e s') :
    Row L s₀ s' [.expr e] ∧ Closed L e.mark s'.lastEnd := by
  induction bound generalizing left s with
  | zero => cases h
  | succ bound ih =>
    obtain ⟨-, rfl, rfl⟩ | ⟨-, operator, left', s₁, hsymbol, -, hbinary, hrest⟩ :=
      ok_of_operators hdown.sound.rules h
    · exact hleft
    · refine ih ?_ hrest
      obtain ⟨o, s₂, operator', right, ho, -, hright, rfl⟩ := ok_of_binary hbinary
      have hto := takes_of_advance hleft.1.stands (TokenKind.ne_of_some hsymbol rfl) ho
      obtain ⟨hrow, hclosed⟩ := hdown.expr operator.level hto.stands hright
      exact ⟨(hleft.1.trans (hto.skip hrow)).joined rfl rfl rfl, hclosed⟩

end Following

/-! ## Whole expressions -/

section Whole

variable (hdown : down.Lays L)

include hdown

theorem lays_primary {kind : TokenKind} {rule : PrimaryRule}
    (hrule : Rules.standardPrimary? kind = some rule) : LaysClosed L (primary down rule) := by
  cases kind <;> cases hrule
  case number | string | char => exact lays_literal
  case identifier => exact lays_label hdown
  case openParen => exact lays_tuple hdown
  case openBracket => exact lays_array hdown
  case openCurly => exact lays_object hdown

theorem lays_expr (power : Power) : LaysClosed L (expr down power) := by
  intro s e s' hs h
  obtain ⟨rule, first, s₁, left, s₂, hrule, hfirst, hleft, h⟩ := ok_of_expr hdown.sound.rules h
  refine closed_of_record (.expr power s.current.kind) hs ?_
  have hprimary := lays_primary hdown hrule (row_of_record _ hs).stands hfirst
  have hchain := row_of_suffixChain hdown down.bound hprimary hleft
  exact row_of_operators hdown power down.bound hchain h

theorem lays_statementExpr (valueRequired : Bool) :
    Lays L (statementExpr down valueRequired) fun e => [.expr e] := by
  intro s e s' hs h
  obtain ⟨s₀, rfl, hform⟩ := ok_of_statementExpr h
  have hrecord := row_of_record (.statementExpr s.current.kind) hs
  refine hrecord.skip ?_
  obtain ⟨-, h⟩ | ⟨hkind, next, s₁, hnext, hform⟩ := hform
  · exact (lays_expr hdown .default hrecord.stands h).1
  · obtain ⟨-, -, hcurrent⟩ := passes_of_peek hrecord.stands.toPlaced hnext
    obtain ⟨hrow, -⟩ := row_of_peek hrecord.stands hnext
    refine hrow.skip ?_
    obtain ⟨-, h⟩ | ⟨-, h⟩ | ⟨-, -, ⟨-, h⟩ | ⟨-, h⟩⟩ := hform
    · exact (lays_declaration hdown hrow.stands h).1
    · exact (lays_update hdown hrow.stands h).1
    · refine (closed_of_conditional hdown hrow.stands ?_ h).1
      rw [hcurrent, hkind]
      decide
    · exact (lays_expr hdown .default hrow.stands h).1

end Whole

end Parse

/-! ## All levels -/

/-- The calls a level below read nodes that form a row, at every number of levels. -/
theorem lays_descent (L : Layout) (elseRequired : Bool) (levels : Nat) :
    (descent .standard elseRequired levels).Lays L := by
  induction levels with
  | zero =>
    refine ⟨sound_descent elseRequired 0, ?_, ?_⟩
    · intro power s e s' hs h
      cases h
    · intro valueRequired s e s' hs h
      cases h
  | succ levels ih =>
    exact ⟨sound_descent elseRequired (levels + 1), fun power => Parse.lays_expr ih power,
      fun valueRequired => Parse.lays_statementExpr ih valueRequired⟩

/-! ## Whole sources -/

/-- The first state of a parse stands before the first token. -/
theorem ParseState.standsIn_of_start {source : String} {settings : Settings} {s : ParseState}
    {size : Nat}
    (hlaid : (TokenStream.ofSource source settings.file).LaidOut settings.file size)
    (h : ParseState.start source settings = .ok s) :
    s.StandsIn ⟨settings.file, size, _, hlaid⟩ := by
  obtain ⟨hplaced, -, hahead, hending⟩ := ParseState.of_start h
  refine ⟨hplaced, hending, [], hahead.symm, ?_⟩
  obtain ⟨t, rest, -, rfl⟩ := ParseState.start_eq_ok_iff.mp h
  rfl

/-- Every node of a parsed module is well placed: its span runs from the start of a token to the
end of one and lies in the source, its children lie inside it and one after another, and calls,
members, suffixes and binary operators start and end where they should. The statements of the
module stand one after another, and the module takes up the whole source. -/
theorem Module.wellPlaced_of_parse {source : String} {settings : Settings} {m : Module}
    (hsize : source.utf8ByteSize < UInt32.size) (h : parse source settings = .ok m) :
    (∀ n, m.HasNode n → n.WellPlaced settings.file source.utf8ByteSize
      (TokenStream.ofSource source settings.file).tokens) ∧
    (m.body.Pairwise fun x y => x.mark.Precedes y.mark) ∧
    m.span.start = ⟨0, settings.file⟩ ∧ m.span.stop.file = settings.file ∧
    m.span.stop.byte = source.utf8ByteSize := by
  obtain ⟨s, s', hstart, hwhole⟩ := parse_eq_ok_iff.mp h
  have hlaid := TokenStream.laidOut_ofSource settings.file hsize
  have hs := ParseState.standsIn_of_start hlaid hstart
  obtain ⟨s₁, hbody, hspan⟩ := Parse.ok_of_wholeSource hwhole
  have hrow := Parse.lays_statements (lays_descent _ settings.elseRequired s.levels) .eof _ hs hbody
  have heof := Parse.kind_of_statements hbody
  obtain ⟨-, hending⟩ := hrow.stands.atEnd heof
  obtain ⟨hfile, hbyte⟩ := hlaid.ending s₁.current (by rw [← hending, hrow.stands.ending_eq])
  have hordered : (m.body.map Node.stmt).Pairwise fun a b => a.span.Precedes b.span := hrow.ordered
  rw [hspan]
  refine ⟨fun n hn => ?_, (List.pairwise_map (f := Node.stmt)).mp hordered, rfl, hfile, hbyte⟩
  exact (hn.everywhere fun x hx => hrow.everywhere _ (List.mem_map_of_mem hx)).here

/-- Two statements: a call of a function in parentheses with parentheses around its arguments,
and a map with a member and a suffix. -/
theorem Module.wellPlaced_of_parse_nested :
    "((f))((a), (1 + (b)))\nmap { k: (x) .y? }".utf8ByteSize < UInt32.size ∧
    ∃ m, parse "((f))((a), (1 + (b)))\nmap { k: (x) .y? }" {} = .ok m ∧
      (∀ n, m.HasNode n → n.WellPlaced "shell"
        "((f))((a), (1 + (b)))\nmap { k: (x) .y? }".utf8ByteSize
        (TokenStream.ofSource "((f))((a), (1 + (b)))\nmap { k: (x) .y? }" "shell").tokens) ∧
      (m.body.Pairwise fun x y => x.mark.Precedes y.mark) ∧
      m.span.start = ⟨0, "shell"⟩ ∧ m.span.stop.file = "shell" ∧
      m.span.stop.byte = "((f))((a), (1 + (b)))\nmap { k: (x) .y? }".utf8ByteSize := by
  have hsize : "((f))((a), (1 + (b)))\nmap { k: (x) .y? }".utf8ByteSize < UInt32.size := by decide
  obtain ⟨m, hm⟩ : ∃ m, parse "((f))((a), (1 + (b)))\nmap { k: (x) .y? }" {} = .ok m :=
    exists_of_isOk (by decide +kernel)
  exact ⟨hsize, m, hm, Module.wellPlaced_of_parse hsize hm⟩

end SurfaceGrammar

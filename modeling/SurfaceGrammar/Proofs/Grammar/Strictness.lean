import Mathlib.Logic.Relation
import SurfaceGrammar.Proofs.Grammar.Tandem

/-!
# Conditionals whose value is used

If a conditional whose value is used must have a branch for the other case, then the conditionals
without one are those whose value is not used: the expression of a statement, or a branch of such
a conditional. Asking for the branches changes nothing else about a parse.

* `Expr.Branch`: reached from an expression by going to branches of conditionals only.
* `Node.Complete`: branches are left out only where a value is not used.
* `Module.complete_of_parse`: so it is in a module that is parsed strictly.
* `parse_strict`: a strict parse compared with a lax one.
-/

namespace SurfaceGrammar

/-- The second expression is reached from the first one by going to branches of conditionals
only. -/
inductive Expr.Branch : Expr Span → Expr Span → Prop
  | refl (e : Expr Span) : Branch e e
  | thenBranch {condition thenBranch e : Expr Span} {elseBranch : Option (Expr Span)} {span : Span}
    (h : Branch thenBranch e) :
    Branch (.conditional condition thenBranch elseBranch span) e
  | elseBranch {condition thenBranch elseBranch e : Expr Span} {span : Span}
    (h : Branch elseBranch e) :
    Branch (.conditional condition thenBranch (some elseBranch) span) e

/-- Conditionals at and below the node have a branch for the other case, unless their value is not
used. Whether that of the node itself is unused is given. -/
inductive Node.Complete : Bool → Node → Prop
  | statement {unused : Bool} {e : Expr Span} (value : Complete true (.expr e)) :
    Complete unused (.stmt (.expression e))
  | branches {condition thenBranch : Expr Span} {elseBranch : Option (Expr Span)} {span : Span}
    (hcondition : Complete false (.expr condition)) (hthen : Complete true (.expr thenBranch))
    (helse : ∀ e ∈ elseBranch, Complete true (.expr e)) :
    Complete true (.expr (.conditional condition thenBranch elseBranch span))
  | node {unused : Bool} {n : Node} (expression : ∀ e, n ≠ .stmt (.expression e))
    (conditional : ∀ condition thenBranch span,
      n ≠ .expr (.conditional condition thenBranch none span))
    (children : ∀ c ∈ n.children, Complete false c) : Complete unused n

namespace Node

/-- The second node is the first one or stands below it. -/
abbrev Below : Node → Node → Prop := Relation.ReflTransGen fun n c => c ∈ n.children

theorem Complete.of_used {unused : Bool} {n : Node} (h : Complete false n) : Complete unused n := by
  cases h with
  | statement value => exact .statement value
  | node expression conditional children => exact .node expression conditional children

/-- A conditional without a branch for the other case is reached through branches from the node, if
its value is not used, or from the expression of a statement below it. -/
theorem Complete.reached {unused : Bool} {n : Node} (h : Complete unused n)
    {condition thenBranch : Expr Span} {span : Span}
    (hbelow : Below n (.expr (.conditional condition thenBranch none span))) :
    (unused = true ∧ ∃ e, n = .expr e ∧ e.Branch (.conditional condition thenBranch none span)) ∨
      ∃ e, Below n (.stmt (.expression e)) ∧
        e.Branch (.conditional condition thenBranch none span) := by
  induction h with
  | @statement _ e _ ih =>
    obtain hstmt | ⟨c, hc, hrest⟩ := hbelow.cases_head
    · cases hstmt
    · obtain rfl := List.mem_singleton.mp hc
      obtain ⟨-, e', he, hbranch⟩ | ⟨e', he, hbranch⟩ := ih hrest
      · cases he
        exact .inr ⟨e, .refl, hbranch⟩
      · exact .inr ⟨e', .head hc he, hbranch⟩
  | @branches condition' thenBranch' elseBranch' span' _ _ _ ihc iht ihe =>
    obtain hhere | ⟨c, hc, hrest⟩ := hbelow.cases_head
    · cases hhere
      exact .inl ⟨rfl, _, rfl, .refl _⟩
    · have hcases : c = .expr condition' ∨ c = .expr thenBranch' ∨
          ∃ e, elseBranch' = some e ∧ c = .expr e := by
        cases elseBranch' <;> simpa [children, optional] using hc
      obtain rfl | rfl | ⟨e, rfl, rfl⟩ := hcases
      · obtain ⟨hfalse, -⟩ | ⟨e', he, hbranch⟩ := ihc hrest
        · cases hfalse
        · exact .inr ⟨e', .head hc he, hbranch⟩
      · obtain ⟨-, e', he, hbranch⟩ | ⟨e', he, hbranch⟩ := iht hrest
        · cases he
          exact .inl ⟨rfl, _, rfl, .thenBranch hbranch⟩
        · exact .inr ⟨e', .head hc he, hbranch⟩
      · obtain ⟨-, e', he, hbranch⟩ | ⟨e', he, hbranch⟩ := ihe e rfl hrest
        · cases he
          exact .inl ⟨rfl, _, rfl, .elseBranch hbranch⟩
        · exact .inr ⟨e', .head hc he, hbranch⟩
  | @node _ n _ conditional _ ih =>
    obtain rfl | ⟨c, hc, hrest⟩ := hbelow.cases_head
    · exact absurd rfl (conditional condition thenBranch span)
    · obtain ⟨hfalse, -⟩ | ⟨e, he, hbranch⟩ := ih c hc hrest
      · cases hfalse
      · exact .inr ⟨e, .head hc he, hbranch⟩

end Node

/-- The nodes of a module are its statements and what stands below them. -/
theorem Module.hasNode_iff {m : Module} {n : Node} :
    m.HasNode n ↔ ∃ x ∈ m.body, Node.Below (.stmt x) n := by
  constructor
  · intro h
    induction h with
    | statement mem => exact ⟨_, mem, .refl⟩
    | child _ mem ih =>
      obtain ⟨x, hx, hbelow⟩ := ih
      exact ⟨x, hx, hbelow.tail mem⟩
  · rintro ⟨x, hx, hbelow⟩
    induction hbelow with
    | refl => exact .statement hx
    | tail _ mem ih => exact ih.child mem

/-! ## Strict productions -/

/-- The nodes of a result are complete, and their values are used. -/
def Completes {β : Type} (nodes : β → List Node) (m : Parse β) : Prop :=
  Gives m fun b => ∀ n ∈ nodes b, n.Complete false

/-- The result is complete. -/
abbrev CompletesExpr (m : Parse (Expr Span)) : Prop := Completes (fun e => [.expr e]) m

/-- The calls a level below ask for all branches whose value is used. -/
structure Descent.Strict (down : Descent) : Prop where
  rules : down.rules = .standard
  elseRequired : down.elseRequired = true
  expr : ∀ power, CompletesExpr (down.expr power)
  statementExpr : ∀ valueRequired, Gives (down.statementExpr valueRequired) fun e =>
    (Node.expr e).Complete !valueRequired

namespace Parse

variable {down : Descent} {β : Type}

/-- A node of which the children are complete, other than the expression of a statement and a
conditional without a branch. -/
theorem completes_pure {node : β → Node} {b : β} (expression : ∀ e, node b ≠ .stmt (.expression e))
    (conditional : ∀ condition thenBranch span,
      node b ≠ .expr (.conditional condition thenBranch none span))
    (children : ∀ c ∈ (node b).children, c.Complete false) :
    Completes (fun b => [node b]) (Pure.pure b) :=
  .pure fun _ hn => List.mem_singleton.mp hn ▸ .node expression conditional children

/-- An expression of which the children are complete, other than a conditional. -/
theorem completes_expr {e : Expr Span}
    (conditional : ∀ condition thenBranch span, e ≠ .conditional condition thenBranch none span)
    (children : ∀ c ∈ (Node.expr e).children, c.Complete false) :
    CompletesExpr (Pure.pure e) :=
  completes_pure nofun (fun c t s h => conditional c t s (Node.expr.inj h)) children

theorem completes_literal : CompletesExpr literal := by
  unfold literal
  refine .bind fun token => ?_
  cases token.kind
  case number =>
    dsimp only
    cases (Decimal.read? token.value.toList).filter Binary64.isFinite with
    | none => exact fun _ _ _ h => nomatch h
    | some x => exact .bind fun _ => completes_expr nofun nofun
  case string => exact .bind fun _ => completes_expr nofun nofun
  case char =>
    dsimp only
    cases token.value.toList with
    | nil => exact .unexpected
    | cons c _ => exact .bind fun _ => completes_expr nofun nofun
  all_goals exact .unexpected

theorem completes_boolean (value : Bool) : CompletesExpr (boolean value) :=
  .bind fun _ => completes_expr nofun nofun

theorem completes_plainLabel : CompletesExpr plainLabel :=
  .bind fun _ => completes_expr nofun nofun

/-! ### Delimited lists -/

/-- The induction is on the bound of the loop. -/
theorem completes_elements {node : β → Node} {close : TokenKind} {element : Parse β}
    (helement : Completes (fun x => [node x]) element) (bound : Nat) (trailingComma : Bool) :
    Completes (fun xs => xs.1.map node) (elements close element bound trailingComma) := by
  induction bound generalizing trailingComma with
  | zero => exact fun _ _ _ h => nomatch h
  | succ bound ih =>
    unfold elements
    refine .bind fun _ => .ite (.pure nofun) (.seq helement fun x hx => .bind fun _ => .ite ?_ ?_)
    · refine .bind fun _ => .seq (ih true) fun xs hxs => .pure ?_
      exact List.forall_mem_cons.mpr ⟨hx _ List.mem_cons_self, hxs⟩
    · exact .pure hx

theorem completes_delimited {node : β → Node} {close : TokenKind} {element : Parse β}
    (helement : Completes (fun x => [node x]) element) (bound : Nat) :
    Completes (fun list => list.elements.map node) (delimited bound close element) :=
  .bind fun _ => .bind fun _ => .seq (completes_elements helement bound false) fun _ hxs =>
    .bind fun _ => .bind fun _ => .bind fun _ => .bind fun _ => .pure hxs

section Composite

variable (hdown : down.Strict)

include hdown

theorem completes_tuple : CompletesExpr (tuple down) := by
  refine .bind fun _ => .seq (completes_delimited (hdown.expr _) _) fun list hlist => ?_
  split
  · next inner helements _ =>
    exact .pure (show ∀ n ∈ [inner].map Node.expr, _ from helements ▸ hlist)
  · exact completes_expr (by simp) hlist

theorem completes_array : CompletesExpr (array down) :=
  .bind fun _ => .seq (completes_delimited (hdown.expr _) _) fun _ hlist =>
    completes_expr nofun hlist

theorem completes_set : CompletesExpr (set down) :=
  .bind fun _ => .bind fun _ => .seq (completes_delimited (hdown.expr _) _) fun _ hlist =>
    completes_expr nofun hlist

theorem completes_entry : Completes (fun x => [.entry x]) (entry down) :=
  .seq (hdown.expr _) fun _ hkey => .bind fun _ => .seq (hdown.expr _) fun _ hvalue =>
    completes_pure nofun nofun (List.forall_mem_cons.mpr ⟨hkey _ List.mem_cons_self, hvalue⟩)

theorem completes_mapping : CompletesExpr (mapping down) :=
  .bind fun _ => .bind fun _ => .seq (completes_delimited (completes_entry hdown) _) fun _ hlist =>
    completes_expr nofun hlist

theorem completes_field : Completes (fun x => [.field x]) (field down) :=
  .bind fun _ => .bind fun _ => .seq (hdown.expr _) fun _ hvalue =>
    completes_pure nofun nofun hvalue

theorem completes_object : CompletesExpr (object down) :=
  .bind fun _ => .seq (completes_delimited (completes_field hdown) _) fun _ hlist =>
    completes_expr nofun hlist

theorem completes_typeAfterColon : Completes Node.optional (typeAfterColon down) :=
  .bind fun _ => .ite (.bind fun _ => .seq (hdown.expr _) fun _ htype => .pure htype) (.pure nofun)

theorem completes_parameter : Completes (fun x => [.parameter x]) (parameter down) :=
  .bind fun _ => .seq (completes_typeAfterColon hdown) fun _ htype => .bind fun _ =>
    completes_pure nofun nofun htype

/-! ### Statements -/

theorem completes_typeDefinition : Completes (fun x => [.stmt x]) (typeDefinition down) :=
  .bind fun _ => .bind fun _ => .bind fun _ => .seq (hdown.expr _) fun _ he => .bind fun _ =>
    completes_pure nofun nofun he

theorem completes_statementContent : Completes (fun x => [.stmt x]) (statementContent down) := by
  refine .bind fun _ => .ite (completes_typeDefinition hdown) ?_
  intro s x s' h
  obtain ⟨e, he, rfl⟩ := ok_of_map h
  intro n hn
  rw [List.mem_singleton.mp hn]
  exact .statement (hdown.statementExpr false he)

theorem completes_statement (close : TokenKind) :
    Completes (fun x => [.stmt x]) (statement down close) :=
  .bind fun _ => .bind fun _ => .bind fun _ => .seq (completes_statementContent hdown) fun _ hx =>
    .bind fun _ => .pure hx

/-- The induction is on the bound of the loop. -/
theorem completes_statements (close : TokenKind) (bound : Nat) :
    Completes (List.map .stmt) (statements down close bound) := by
  induction bound with
  | zero => exact fun _ _ _ h => nomatch h
  | succ bound ih =>
    unfold statements
    refine .bind fun _ => .ite (.bind fun _ => ih) (.bind fun _ => .ite (.pure nofun)
      (.bind fun _ => .ite .unexpected ?_))
    refine .seq (completes_statement hdown close) fun x hx => .seq ih fun xs hxs => .pure ?_
    exact List.forall_mem_cons.mpr ⟨hx _ List.mem_cons_self, hxs⟩

theorem completes_blockBody : Completes (List.map .stmt) (blockBody down) := by
  refine .bind fun _ => .bind fun depth => .seq ?_ fun _ hbody => .bind fun _ => .bind fun _ =>
    .pure hbody
  intro s body s' h
  obtain ⟨s₁, hstatements, -⟩ := ok_of_exitBlock h
  exact completes_statements hdown _ _ hstatements

/-! ### Functions, blocks and conditionals -/

theorem completes_functionBody (typed : Bool) : Completes Body.nodes (functionBody down typed) := by
  refine .bind fun kind => ?_
  cases kind
  case arrow =>
    refine .bind fun _ => ?_
    intro s body s' h
    obtain ⟨e, he, rfl⟩ := ok_of_map h
    exact fun n hn => List.mem_singleton.mp hn ▸ hdown.statementExpr true he
  case openCurly =>
    intro s body s' h
    obtain ⟨xs, hxs, rfl⟩ := ok_of_map h
    exact completes_blockBody hdown hxs
  all_goals exact .unexpected

theorem completes_function : CompletesExpr (function down) := by
  refine .bind fun _ => .bind fun _ => .bind fun _ => .bind fun _ => .bind fun _ =>
    .seq (completes_delimited (completes_parameter hdown) _) fun list hlist => .bind fun _ =>
    .seq (completes_typeAfterColon hdown) fun type htype => .bind fun _ =>
    .seq (completes_functionBody hdown _) fun body hbody => .bind fun _ => .bind fun _ =>
    completes_expr nofun ?_
  exact List.forall_mem_append.mpr ⟨hlist, List.forall_mem_append.mpr ⟨htype, hbody⟩⟩

theorem completes_block (kind : BlockKind) : CompletesExpr (block down kind) :=
  .bind fun _ => .bind fun _ => .seq (completes_blockBody hdown) fun _ hbody => .bind fun _ =>
    completes_expr nofun hbody

/-- A branch for the other case is there if the value of the conditional is used. -/
theorem gives_elseBranch (valueRequired : Bool) (start : Position) :
    Gives (elseBranch down valueRequired start) fun o =>
      (o = none → valueRequired = false) ∧ ∀ e ∈ o, (Node.expr e).Complete !valueRequired := by
  refine .bind fun _ => .ite (.bind fun _ => .seq (hdown.statementExpr _) fun e he => .pure ?_)
    ?_
  · exact ⟨nofun, fun e' he' => Option.mem_some_iff.mp he' ▸ he⟩
  · rw [hdown.elseRequired, Bool.and_true]
    split
    · exact fun _ _ _ h => nomatch h
    · next hused => exact .pure ⟨fun _ => Bool.eq_false_iff.mpr hused, nofun⟩

theorem gives_conditional (valueRequired : Bool) :
    Gives (conditional down valueRequired) fun e => (Node.expr e).Complete !valueRequired := by
  refine .bind fun _ => .bind fun _ => .seq (hdown.expr _) fun c hc => .bind fun _ =>
    .seq (hdown.statementExpr valueRequired) fun t ht =>
    .seq (gives_elseBranch hdown valueRequired _) fun o ho => .bind fun _ => .pure ?_
  obtain ⟨hnone, hsome⟩ := ho
  have hcondition := hc _ List.mem_cons_self
  cases valueRequired with
  | false => exact .branches hcondition ht hsome
  | true =>
    cases o with
    | none => cases hnone rfl
    | some e =>
      refine .node nofun nofun ?_
      simpa [Node.children, Node.optional] using ⟨hcondition, ht, hsome e rfl⟩

omit hdown in
/-- A word that opens a block, a set or a map, or is a plain label. -/
theorem completes_opener {production : Parse (Expr Span)} (hproduction : CompletesExpr production) :
    CompletesExpr (do if ← opensCurly then production else plainLabel) :=
  .bind fun _ => .ite hproduction completes_plainLabel

theorem completes_label : CompletesExpr (label down) := by
  refine .bind fun token => ?_
  cases token.keyword? with
  | none => exact completes_plainLabel
  | some keyword =>
    cases keyword with
    | «if» =>
      exact fun s e s' h n hn => List.mem_singleton.mp hn ▸ gives_conditional hdown true h
    | «then» | «else» => exact .unexpected
    | fn => exact completes_function hdown
    | type => exact completes_plainLabel
    | «do» => exact completes_opener (completes_block hdown .do)
    | scope => exact completes_opener (completes_block hdown .scope)
    | set => exact completes_opener (completes_set hdown)
    | map => exact completes_opener (completes_mapping hdown)
    | true => exact completes_boolean true
    | false => exact completes_boolean false

/-! ### Declarations, updates and operators -/

theorem completes_declaredType : Completes Node.optional (declaredType down) :=
  .bind fun _ => .ite (.pure nofun) (.seq (hdown.expr _) fun _ htype => .pure htype)

theorem completes_declaration : CompletesExpr (declaration down) :=
  .bind fun _ => .bind fun _ => .bind fun _ => .bind fun _ =>
    .seq (completes_declaredType hdown) fun _ htype => .bind fun _ =>
    .seq (hdown.expr _) fun _ he => .bind fun _ =>
    completes_expr nofun (List.forall_mem_append.mpr ⟨htype, he⟩)

theorem completes_update : CompletesExpr (update down) := by
  refine .bind fun _ => .bind fun _ => .bind fun _ => .bind fun kind => ?_
  cases Updater.ofKind? kind with
  | none => exact .unexpected
  | some operator =>
    exact .bind fun _ => .seq (hdown.expr _) fun _ he => .bind fun _ => completes_expr nofun he

end Composite

section Following

variable {base left : Expr Span}

theorem completes_call (hdown : down.Strict) (hbase : (Node.expr base).Complete false) :
    CompletesExpr (call down base) :=
  .bind fun _ => .seq (completes_delimited (hdown.expr _) _) fun _ hlist =>
    completes_expr nofun (List.forall_mem_cons.mpr ⟨hbase, hlist⟩)

theorem completes_member (hbase : (Node.expr base).Complete false) :
    CompletesExpr (member base) :=
  .bind fun _ => .bind fun _ => completes_expr nofun (by simpa [Node.children] using hbase)

theorem completes_suffix (hbase : (Node.expr base).Complete false) :
    CompletesExpr (suffix base) := by
  refine .bind fun kind => ?_
  cases SuffixOperator.ofKind? kind with
  | none => exact .unexpected
  | some operator =>
    exact .bind fun _ => completes_expr nofun (by simpa [Node.children] using hbase)

/-- The induction is on the bound of the loop. -/
theorem completes_suffixChain (hdown : down.Strict) (bound : Nat)
    (hbase : (Node.expr base).Complete false) :
    CompletesExpr (suffixChain down bound base) := by
  induction bound generalizing base with
  | zero => exact fun _ _ _ h => nomatch h
  | succ bound ih =>
    have hend : CompletesExpr (Pure.pure base) := .pure (by simpa using hbase)
    have hmore {m : Parse (Expr Span)} (hm : CompletesExpr m) :
        CompletesExpr (m >>= suffixChain down bound) :=
      .seq hm fun _ he => ih (he _ List.mem_cons_self)
    unfold suffixChain
    refine .bind fun _ => .ite hend (.bind fun kind => ?_)
    cases kind
    case openParen => exact hmore (completes_call hdown hbase)
    case dot =>
      exact hmore (.bind fun _ => .ite (completes_member hbase) (completes_suffix hbase))
    case dollar | hash | question => exact hmore (completes_suffix hbase)
    all_goals exact hend

theorem completes_binary (hdown : down.Strict) (power : Power)
    (hleft : (Node.expr left).Complete false) : CompletesExpr (binary down left power) := by
  refine .bind fun token => ?_
  cases BinaryOperator.ofKind? token.kind with
  | none => exact fun _ _ _ h => nomatch h
  | some operator =>
    exact .seq (hdown.expr _) fun _ hright =>
      completes_expr nofun (List.forall_mem_cons.mpr ⟨hleft, hright⟩)

/-- The induction is on the bound of the loop. -/
theorem completes_operators (hdown : down.Strict) (power : Power) (bound : Nat)
    (hleft : (Node.expr left).Complete false) :
    CompletesExpr (operators down power bound left) := by
  induction bound generalizing left with
  | zero => exact fun _ _ _ h => nomatch h
  | succ bound ih =>
    have hend : CompletesExpr (Pure.pure left) := .pure (by simpa using hleft)
    unfold operators
    refine .bind fun _ => .ite hend (.bind fun kind => ?_)
    rw [hdown.rules]
    cases hsymbol : BinaryOperator.ofKind? kind with
    | none =>
      simp only [Rules.standard, hsymbol]
      exact hend
    | some operator =>
      simp only [Rules.standard, hsymbol, Option.map_some]
      exact .ite hend (.seq (completes_binary hdown _ hleft) fun _ he =>
        ih (he _ List.mem_cons_self))

theorem completes_primary (hdown : down.Strict) {kind : TokenKind} {rule : PrimaryRule}
    (hrule : Rules.standardPrimary? kind = some rule) : CompletesExpr (primary down rule) := by
  cases kind <;> cases hrule
  case number | string | char => exact completes_literal
  case identifier => exact completes_label hdown
  case openParen => exact completes_tuple hdown
  case openBracket => exact completes_array hdown
  case openCurly => exact completes_object hdown

theorem completes_wholeExpr (hdown : down.Strict) (power : Power) :
    CompletesExpr (expr down power) := by
  refine .bind fun kind => .bind fun _ => ?_
  rw [hdown.rules]
  cases hrule : Rules.standardPrimary? kind with
  | none =>
    simp only [Rules.standard, hrule]
    exact .unexpected
  | some rule =>
    simp only [Rules.standard, hrule]
    exact .seq (completes_primary hdown hrule) fun _ he =>
      .seq (completes_suffixChain hdown _ (he _ List.mem_cons_self)) fun _ hf =>
      completes_operators hdown power _ (hf _ List.mem_cons_self)

/-- An expression in the place of a statement: only the value of a conditional may be unused. -/
theorem gives_statementExpr (hdown : down.Strict) (valueRequired : Bool) :
    Gives (statementExpr down valueRequired) fun e =>
      (Node.expr e).Complete !valueRequired := by
  have hused {m : Parse (Expr Span)} (hm : CompletesExpr m) :
      Gives m fun e => (Node.expr e).Complete !valueRequired :=
    fun _ _ _ h => (hm h _ List.mem_cons_self).of_used
  have hexpr := hused (completes_wholeExpr hdown .default)
  refine .bind fun _ => .bind fun _ => .bind fun _ => .ite (.bind fun _ => ?_) hexpr
  refine .ite (hused (completes_declaration hdown)) (.ite (hused (completes_update hdown)) ?_)
  exact .bind fun _ => .ite (gives_conditional hdown valueRequired) hexpr

end Following

end Parse

/-- The calls a level below ask for all branches whose value is used, at every number of
levels. -/
theorem strict_descent (levels : Nat) : (descent .standard true levels).Strict := by
  induction levels with
  | zero => exact ⟨rfl, rfl, fun _ _ _ _ h => (nomatch h), fun _ _ _ _ h => (nomatch h)⟩
  | succ levels ih =>
    exact ⟨rfl, rfl, Parse.completes_wholeExpr ih, Parse.gives_statementExpr ih⟩

/-! ## Whole sources -/

theorem completes_wholeSource (file : String) (levels : Nat) :
    Completes (fun m => m.body.map .stmt)
      (Parse.wholeSource file (descent .standard true levels)) :=
  .seq (Parse.completes_statements (strict_descent levels) .eof _) fun _ hbody =>
    .bind fun _ => .bind fun _ => .pure hbody

/-- In a module that is parsed strictly, a conditional without a branch for the other case is
reached from the expression of a statement through branches. -/
theorem Module.reached_of_parse {source : String} {file? : Option String} {m : Module}
    (h : parse source ⟨file?, true⟩ = .ok m) {condition thenBranch : Expr Span} {span : Span}
    (hnode : m.HasNode (.expr (.conditional condition thenBranch none span))) :
    ∃ e, m.HasNode (.stmt (.expression e)) ∧
      e.Branch (.conditional condition thenBranch none span) := by
  obtain ⟨s, s', -, hwhole⟩ := parse_eq_ok_iff.mp h
  obtain ⟨x, hx, hbelow⟩ := Module.hasNode_iff.mp hnode
  have hcomplete := completes_wholeSource _ _ hwhole _ (List.mem_map_of_mem hx)
  obtain ⟨hfalse, -⟩ | ⟨e, he, hbranch⟩ := hcomplete.reached hbelow
  · cases hfalse
  · exact ⟨e, Module.hasNode_iff.mpr ⟨x, hx, he⟩, hbranch⟩

/-- Asking for the branches whose value is used only adds the error that one is missing. A module
that is parsed strictly is the same as without asking, and lacks branches only where no value is
used. An error without asking stays, unless a branch was missing before it. And where only the
strict parse fails, its error stands at the start of a conditional of the module that has no
branch. -/
theorem parse_strict (source : String) (file? : Option String) :
    (∀ m, parse source ⟨file?, true⟩ = .ok m →
      parse source ⟨file?, false⟩ = .ok m ∧
      ∀ condition thenBranch span,
        m.HasNode (.expr (.conditional condition thenBranch none span)) →
        ∃ e, m.HasNode (.stmt (.expression e)) ∧
          e.Branch (.conditional condition thenBranch none span)) ∧
    (∀ failure, parse source ⟨file?, false⟩ = .error failure →
      parse source ⟨file?, true⟩ = .error failure ∨
      ∃ p, parse source ⟨file?, true⟩ = .error (.error ⟨.missingElseBranch, p⟩)) ∧
    ∀ m failure, parse source ⟨file?, false⟩ = .ok m →
      parse source ⟨file?, true⟩ = .error failure →
      ∃ condition thenBranch span,
        m.HasNode (.expr (.conditional condition thenBranch none span)) ∧
        failure = .error ⟨.missingElseBranch, span.start⟩ := by
  have hcompare :
      parse source ⟨file?, true⟩ = parse source ⟨file?, false⟩ ∨
      ∃ p, parse source ⟨file?, true⟩ = .error (.error ⟨.missingElseBranch, p⟩) ∧
        ∀ m, parse source ⟨file?, false⟩ = .ok m → lacksModule p m := by
    cases hstart : ParseState.start source ⟨file?, false⟩ with
    | error e =>
      have hstart' : ParseState.start source ⟨file?, true⟩ = .error e := hstart
      exact .inl (by rw [parse_of_start_error hstart, parse_of_start_error hstart'])
    | ok s =>
      have hstart' : ParseState.start source ⟨file?, true⟩ = .ok s := hstart
      have hplaced := (ParseState.of_start hstart).1
      have hdescent := tandem_descent (K := ⟨True, False⟩) (.inr ⟨trivial, rfl, rfl⟩)
        (Nat.le_refl s.levels) (Nat.le_refl s.levels)
      have hwhole := tandem_wholeSource (Settings.file ⟨file?, false⟩) hdescent (.refl hplaced)
        s.length_ahead_lt_levels
      rw [parse_of_start hstart, parse_of_start hstart']
      change Tandem _ _ _ _ (Parse.wholeSource (Settings.file ⟨file?, true⟩) _ s) at hwhole
      generalize Parse.wholeSource (Settings.file ⟨file?, false⟩) _ s = r at hwhole
      generalize Parse.wholeSource (Settings.file ⟨file?, true⟩) _ s = r' at hwhole
      cases hwhole with
      | ok => exact .inl rfl
      | error => exact .inl rfl
      | lacking _ result =>
        refine .inr ⟨_, rfl, fun m hm => ?_⟩
        cases r with
        | ok m' t =>
          cases hm
          exact result _ _ rfl
        | error failure t => cases hm
  refine ⟨fun m hm => ?_, fun failure hfailure => ?_, fun m failure hm hfailure => ?_⟩
  · obtain hsame | ⟨p, hp, -⟩ := hcompare
    · exact ⟨hsame ▸ hm, fun condition thenBranch span => Module.reached_of_parse hm⟩
    · rw [hp] at hm
      cases hm
  · obtain hsame | ⟨p, hp, -⟩ := hcompare
    · exact .inl (hsame.trans hfailure)
    · exact .inr ⟨p, hp⟩
  · obtain hsame | ⟨p, hp, hlacks⟩ := hcompare
    · rw [hsame, hm] at hfailure
      cases hfailure
    · obtain ⟨n, hn, hlacksNode⟩ := hlacks m hm
      obtain ⟨x, hx, rfl⟩ := List.mem_map.mp hn
      obtain ⟨condition, thenBranch, span, hspan, hnode⟩ :=
        (Module.HasNode.statement hx).exists_of_lacks hlacksNode
      rw [hp] at hfailure
      cases hfailure
      exact ⟨condition, thenBranch, span, hnode, by rw [hspan]⟩

end SurfaceGrammar

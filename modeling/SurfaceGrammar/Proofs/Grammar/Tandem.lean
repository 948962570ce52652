import SurfaceGrammar.Proofs.Parse.Tandem

/-!
# Productions side by side

Every production goes the same way over two descents whose calls go the same way while fewer
tokens are left than there were at its beginning. So the calls that it makes a level below come
after a token was passed, and the bounds on levels and rounds are never reached while there are
more of them than tokens. The one place where two descents part is a conditional without a branch
that only the stricter one asks for; its tree goes into everything that is made of it.

* `Descent.Tandem`: the calls a level below go the same way, while fewer tokens are left than
  levels.
* `tandem_descent`: they do at all numbers of levels.
* `tandem_wholeSource`: so do parses of a whole source.
-/

namespace SurfaceGrammar

/-- What an expression lacks. -/
abbrev lacksExpr : Position → Expr Span → Prop := LacksIn fun e => [.expr e]

/-- What a list of statements lacks. -/
abbrev lacksStatements : Position → List (Stmt Span) → Prop := LacksIn (List.map .stmt)

/-- The calls a level below go the same way with fewer than `n` tokens left, by the rules of the
language. The second descent may be the stricter one. -/
structure Descent.Tandem (K : Comparison) (n : Nat) (down down' : Descent) : Prop where
  rules : down.rules = .standard
  rules' : down'.rules = .standard
  bound : n ≤ down.bound
  bound' : n ≤ down'.bound
  elseRequired : down'.elseRequired = down.elseRequired ∨
    K.stricter ∧ down.elseRequired = false ∧ down'.elseRequired = true
  expr : ∀ {power : Power} {s s' : ParseState}, s.Alike K s' → s.ahead.length < n →
    SurfaceGrammar.Tandem K lacksExpr s.ahead.length (down.expr power s)
      (down'.expr power s')
  statementExpr : ∀ {valueRequired : Bool} {s s' : ParseState}, s.Alike K s' →
    s.ahead.length < n →
    SurfaceGrammar.Tandem K lacksExpr s.ahead.length (down.statementExpr valueRequired s)
      (down'.statementExpr valueRequired s')

namespace Parse

variable {K : Comparison} {n : Nat} {down down' : Descent} {s s' : ParseState}

/-! ## Literals and labels -/

theorem tandem_literal (h : s.Alike K s') :
    Tandem K lacksExpr s.ahead.length (literal s) (literal s') := by
  unfold literal
  rw [bind_current, bind_current, h.current]
  cases hkind : s.current.kind
  case number =>
    dsimp only
    cases (Decimal.read? s.current.value.toList).filter Binary64.isFinite with
    | none => exact tandem_fail _ h
    | some x =>
      exact (tandem_advance_kind h hkind (by decide)).step fun t u u' hu hlt => .ok hu hlt
  case string =>
    exact (tandem_advance_kind h hkind (by decide)).step fun t u u' hu hlt => .ok hu hlt
  case char =>
    dsimp only
    cases s.current.value.toList with
    | nil => exact tandem_unexpected _ h
    | cons c rest =>
      exact (tandem_advance_kind h hkind (by decide)).step fun t u u' hu hlt => .ok hu hlt
  all_goals exact tandem_unexpected _ h

theorem tandem_boolean (value : Bool) (h : s.Alike K s') (hne : s.current.kind ≠ .eof) :
    Tandem K lacksExpr s.ahead.length (boolean value s) (boolean value s') :=
  (tandem_advance h hne).step fun _ _ _ hu hlt => .ok hu hlt

theorem tandem_plainLabel (h : s.Alike K s') :
    Tandem K lacksExpr s.ahead.length (plainLabel s) (plainLabel s') :=
  (tandem_expect h (by decide)).step fun _ _ _ hu hlt => .ok hu hlt

/-! ## Delimited lists -/

section Delimited

variable {β : Type} {node : β → Node} {close : TokenKind} {element element' : Parse β}

/-- The induction is on the bound of the first loop, of which every round passes a token. -/
theorem tandem_elements
    (helement : ∀ {s s' : ParseState}, s.Alike K s' → s.ahead.length < n →
      Tandem K (LacksIn fun x => [node x]) s.ahead.length (element s) (element' s'))
    (bound bound' : Nat) (afterComma : Bool) (h : s.Alike K s') (hn : s.ahead.length < n)
    (hbound : s.ahead.length < bound) (hbound' : s.ahead.length < bound') :
    Tandem K (LacksIn fun xs => xs.1.map node) (s.ahead.length + 1)
      (elements close element bound afterComma s)
      (elements close element' bound' afterComma s') := by
  induction bound generalizing bound' afterComma s s' with
  | zero => omega
  | succ bound ih =>
    obtain ⟨bound', rfl⟩ := Nat.exists_eq_add_of_lt (Nat.zero_lt_of_lt hbound')
    rw [Nat.zero_add]
    unfold elements
    rw [bind_standsAt, bind_standsAt, h.current]
    split
    · exact .ok h (Nat.lt_succ_self _)
    · refine (helement h hn).bind (fun p x hx => ?_) fun x u u' hu hlt => ?_
      · refine .bind fun _ => .ite (.bind fun _ => .bind fun _ => .pure ?_) (.pure ?_)
        · exact hx.mono (by simp)
        · exact hx.mono (by simp)
      rw [bind_standsAt, bind_standsAt, hu.current]
      split
      · next hcomma =>
        refine (tandem_advance_kind hu (of_decide_eq_true hcomma) (by decide)).step
          fun t v v' hv hlt' => ?_
        refine (ih bound' true hv (by omega) (by omega) (by omega)).bind (fun p xs hxs => ?_)
          fun xs w w' hw hlt'' => .ok hw (by omega)
        exact .pure (hxs.mono fun x hx => List.mem_cons_of_mem _ hx)
      · exact .ok hu (by omega)

theorem tandem_delimited
    (helement : ∀ {s s' : ParseState}, s.Alike K s' → s.ahead.length < n →
      Tandem K (LacksIn fun x => [node x]) s.ahead.length (element s) (element' s'))
    (hbound : n ≤ down.bound) (hbound' : n ≤ down'.bound) (hclose : close ≠ .eof)
    (h : s.Alike K s') (hn : s.ahead.length < n) :
    Tandem K (LacksIn fun list => list.elements.map node) s.ahead.length
      (delimited down.bound close element s) (delimited down'.bound close element' s') := by
  unfold delimited watchedDelimited
  rw [bind_enterGroup, bind_enterGroup, bind_setInReturnType, bind_setInReturnType, h.groupDepth,
    h.inReturnType]
  refine (tandem_elements helement down.bound down'.bound false
    (h.within (s.groupDepth + 1) false) hn (Nat.lt_of_lt_of_le hn hbound)
    (Nat.lt_of_lt_of_le hn hbound')).bind (fun p xs hxs => ?_) fun xs u u' hu hlt => ?_
  · exact .bind fun _ => .bind fun _ => .bind fun _ => .bind fun _ => .pure hxs
  dsimp only
  rw [bind_atExit, bind_atExit, bind_exitGroup, bind_exitGroup, bind_setInReturnType,
    bind_setInReturnType, hu.groupDepth]
  refine (tandem_expectOr _ (hu.within (u.groupDepth - 1) s.inReturnType) hclose).step
    fun t v v' hv hlt' => ?_
  exact .ok hv (Nat.lt_of_lt_of_le hlt' (Nat.le_of_lt_succ hlt))

end Delimited

/-! ## Delimited expressions -/

section Composite

variable (hdown : down.Tandem K n down')

include hdown

theorem tandem_exprs {close : TokenKind} (hclose : close ≠ .eof) (h : s.Alike K s')
    (hn : s.ahead.length < n) :
    Tandem K (LacksIn fun list => list.elements.map .expr) s.ahead.length
      (delimited down.bound close (down.expr .default) s)
      (delimited down'.bound close (down'.expr .default) s') :=
  tandem_delimited hdown.expr hdown.bound hdown.bound' hclose h hn

theorem tandem_entry (h : s.Alike K s') (hn : s.ahead.length < n) :
    Tandem K (LacksIn fun x => [.entry x]) s.ahead.length (entry down s)
      (entry down' s') := by
  refine (hdown.expr h hn).bind (fun p key hkey => ?_) fun key u u' hu hlt => ?_
  · exact .bind fun _ => .bind fun _ =>
      .pure (hkey.below List.mem_cons_self (by simp [Node.children]))
  refine (tandem_expect hu (by decide)).step fun t v v' hv hlt' => ?_
  refine (hdown.expr hv (by omega)).bind (fun p value hvalue => ?_)
    fun value w w' hw hlt'' => .ok hw (by omega)
  exact .pure (hvalue.below List.mem_cons_self (by simp [Node.children]))

theorem tandem_field (h : s.Alike K s') (hn : s.ahead.length < n) :
    Tandem K (LacksIn fun x => [.field x]) s.ahead.length (field down s)
      (field down' s') := by
  refine (tandem_expect h (by decide)).step fun label u u' hu hlt => ?_
  refine (tandem_expect hu (by decide)).step fun t v v' hv hlt' => ?_
  refine (hdown.expr hv (by omega)).bind (fun p value hvalue => ?_)
    fun value w w' hw hlt'' => .ok hw (by omega)
  exact .pure (hvalue.below List.mem_cons_self (by simp [Node.children]))

theorem tandem_typeAfterColon (h : s.Alike K s') (hn : s.ahead.length ≤ n) :
    Tandem K (LacksIn Node.optional) (s.ahead.length + 1) (typeAfterColon down s)
      (typeAfterColon down' s') := by
  unfold typeAfterColon
  rw [bind_standsAt, bind_standsAt, h.current]
  split
  · next hcolon =>
    refine (tandem_advance_kind h (of_decide_eq_true hcolon) (by decide)).step
      fun t u u' hu hlt => ?_
    refine (hdown.expr hu (by omega)).bind (fun p type htype => ?_)
      fun type v v' hv hlt' => .ok hv (by omega)
    exact .pure (htype.mono fun x hx => hx)
  · exact .ok h (Nat.lt_succ_self _)

theorem tandem_parameter (h : s.Alike K s') (hn : s.ahead.length < n) :
    Tandem K (LacksIn fun x => [.parameter x]) s.ahead.length (parameter down s)
      (parameter down' s') := by
  refine (tandem_expect h (by decide)).step fun label u u' hu hlt => ?_
  refine (tandem_typeAfterColon hdown hu (by omega)).bind (fun p type htype => ?_)
    fun type v v' hv hlt' => ?_
  · exact .bind fun _ => .pure (htype.below List.mem_cons_self (by simp [Node.children]))
  · rw [bind_spanFrom, bind_spanFrom, hv.spanFrom]
    exact .ok hv (by omega)

theorem tandem_tuple (h : s.Alike K s') (hn : s.ahead.length ≤ n) :
    Tandem K lacksExpr s.ahead.length (tuple down s) (tuple down' s') := by
  refine (tandem_expect h (by decide)).step fun o u u' hu hlt => ?_
  refine (tandem_exprs hdown (by decide) hu (by omega)).bind (fun p list hlist => ?_)
    fun list v v' hv hlt' => ?_
  · split
    · next inner helements _ =>
      rw [LacksIn, helements] at hlist
      exact .pure hlist
    · exact .pure (hlist.below List.mem_cons_self fun x hx => hx)
  · obtain ⟨elements, comma, closing⟩ := list
    cases elements with
    | nil => exact .ok hv (by omega)
    | cons first rest =>
      cases rest with
      | nil => cases comma <;> exact .ok hv (by omega)
      | cons second rest => exact .ok hv (by omega)

theorem tandem_array (h : s.Alike K s') (hn : s.ahead.length ≤ n) :
    Tandem K lacksExpr s.ahead.length (array down s) (array down' s') := by
  refine (tandem_expect h (by decide)).step fun o u u' hu hlt => ?_
  refine (tandem_exprs hdown (by decide) hu (by omega)).bind (fun p list hlist => ?_)
    fun list v v' hv hlt' => .ok hv (by omega)
  exact .pure (hlist.below List.mem_cons_self fun x hx => hx)

theorem tandem_object (h : s.Alike K s') (hn : s.ahead.length ≤ n) :
    Tandem K lacksExpr s.ahead.length (object down s) (object down' s') := by
  refine (tandem_expect h (by decide)).step fun o u u' hu hlt => ?_
  refine (tandem_delimited (tandem_field hdown) hdown.bound hdown.bound' (by decide) hu
    (by omega)).bind (fun p list hlist => ?_) fun list v v' hv hlt' => .ok hv (by omega)
  exact .pure (hlist.below List.mem_cons_self fun x hx => hx)

theorem tandem_set (h : s.Alike K s') (hn : s.ahead.length ≤ n) :
    Tandem K lacksExpr s.ahead.length (set down s) (set down' s') := by
  refine (tandem_expect h (by decide)).step fun k u u' hu hlt => ?_
  refine (tandem_expect hu (by decide)).step fun o v v' hv hlt' => ?_
  refine (tandem_exprs hdown (by decide) hv (by omega)).bind (fun p list hlist => ?_)
    fun list w w' hw hlt'' => .ok hw (by omega)
  exact .pure (hlist.below List.mem_cons_self fun x hx => hx)

theorem tandem_mapping (h : s.Alike K s') (hn : s.ahead.length ≤ n) :
    Tandem K lacksExpr s.ahead.length (mapping down s) (mapping down' s') := by
  refine (tandem_expect h (by decide)).step fun k u u' hu hlt => ?_
  refine (tandem_expect hu (by decide)).step fun o v v' hv hlt' => ?_
  refine (tandem_delimited (tandem_entry hdown) hdown.bound hdown.bound' (by decide) hv
    (by omega)).bind (fun p list hlist => ?_) fun list w w' hw hlt'' => .ok hw (by omega)
  exact .pure (hlist.below List.mem_cons_self fun x hx => hx)

end Composite

/-! ## Statements and blocks -/

section Statements

variable (hdown : down.Tandem K n down')

include hdown

theorem tandem_typeDefinition (h : s.Alike K s') (hne : s.current.kind ≠ .eof)
    (hn : s.ahead.length ≤ n) :
    Tandem K (LacksIn fun x => [.stmt x]) s.ahead.length (typeDefinition down s)
      (typeDefinition down' s') := by
  refine (tandem_advance h hne).step fun k u u' hu hlt => ?_
  refine (tandem_expect hu (by decide)).step fun name v v' hv hlt' => ?_
  refine (tandem_expect hv (by decide)).step fun a w w' hw hlt'' => ?_
  refine (hdown.expr hw (by omega)).bind (fun p e he => ?_) fun e z z' hz hlt''' => ?_
  · exact .bind fun _ => .pure (he.below List.mem_cons_self fun x hx => hx)
  · rw [bind_spanFrom, bind_spanFrom, hz.spanFrom]
    exact .ok hz (by omega)

omit hdown in
/-- The question whether a type definition begins has the same answer on both sides. -/
theorem tandem_beginsTypeDefinition {β : Type} {lacks : Position → β → Prop} {m : Nat}
    {f f' : Bool → Parse β} (h : s.Alike K s')
    (hf : ∀ b u u', u.Alike K u' → u.ahead = s.ahead → (b = true → u.current.kind ≠ .eof) →
      Tandem K lacks m (f b u) (f' b u')) :
    Tandem K lacks m ((beginsTypeDefinition >>= f) s)
      ((beginsTypeDefinition >>= f') s') := by
  unfold beginsTypeDefinition
  rw [bind_assoc, bind_assoc, bind_current, bind_current, h.current]
  split
  · next hword =>
    have hne := Token.ne_eof_of_keyword? (Token.isKeyword_iff.mp hword)
    rw [bind_assoc, bind_assoc]
    refine tandem_peek h hne fun t u u' hu hcurrent hahead => ?_
    rw [pure_bind, pure_bind]
    exact hf _ u u' hu hahead fun _ => hcurrent ▸ hne
  · exact hf false s s' h rfl nofun

theorem tandem_statementContent (h : s.Alike K s') (hn : s.ahead.length < n) :
    Tandem K (LacksIn fun x => [.stmt x]) s.ahead.length (statementContent down s)
      (statementContent down' s') := by
  refine tandem_beginsTypeDefinition h fun b u u' hu hahead hne => ?_
  rw [← hahead] at hn ⊢
  split
  · next hb => exact tandem_typeDefinition hdown hu (hne hb) (Nat.le_of_lt hn)
  · exact (hdown.statementExpr hu hn).map fun p e he =>
      he.below List.mem_cons_self fun x hx => hx

omit hdown in
theorem tandem_terminator (close : TokenKind) (h : s.Alike K s') :
    Tandem K lacksNothing (s.ahead.length + 1) (terminator close s)
      (terminator close s') := by
  unfold terminator
  rw [bind_current, bind_current, h.current]
  split
  · next hsemicolon =>
    exact (tandem_advance_kind h hsemicolon (by decide)).step fun t u u' hu hlt =>
      .ok hu (by omega)
  · split
    · exact .ok h (Nat.lt_succ_self _)
    · exact tandem_unexpected _ h

theorem tandem_statement (close : TokenKind) (h : s.Alike K s') (hn : s.ahead.length < n) :
    Tandem K (LacksIn fun x => [.stmt x]) s.ahead.length (statement down close s)
      (statement down' close s') := by
  unfold statement
  rw [bind_atStatement, bind_atStatement, bind_currentKind, bind_currentKind, h.current,
    bind_record, bind_record]
  refine (tandem_statementContent hdown (h.record _) hn).bind (fun p x hx => ?_)
    fun x u u' hu hlt => ?_
  · exact .bind fun _ => .pure hx
  refine (tandem_terminator close hu).step fun _ v v' hv hlt' => ?_
  exact .ok hv (Nat.lt_of_lt_of_le hlt' hlt)

/-- The induction is on the bound of the first loop, of which every round passes a token. -/
theorem tandem_statements (close : TokenKind) (bound bound' : Nat) (h : s.Alike K s')
    (hn : s.ahead.length < n) (hbound : s.ahead.length < bound)
    (hbound' : s.ahead.length < bound') :
    Tandem K lacksStatements (s.ahead.length + 1) (statements down close bound s)
      (statements down' close bound' s') := by
  induction bound generalizing bound' s s' with
  | zero => omega
  | succ bound ih =>
    obtain ⟨bound', rfl⟩ := Nat.exists_eq_add_of_lt (Nat.zero_lt_of_lt hbound')
    rw [Nat.zero_add]
    unfold statements
    rw [bind_standsAt, bind_standsAt, h.current]
    split
    · next hsemicolon =>
      refine (tandem_advance_kind h (of_decide_eq_true hsemicolon) (by decide)).step
        fun t u u' hu hlt => ?_
      exact (ih bound' hu (by omega) (by omega) (by omega)).weaken (by omega)
    · rw [bind_standsAt, bind_standsAt, h.current]
      split
      · exact .ok h (Nat.lt_succ_self _)
      · rw [bind_standsAt, bind_standsAt, h.current]
        split
        · exact tandem_unexpected _ h
        · refine (tandem_statement hdown close h hn).bind (fun p x hx => ?_)
            fun x u u' hu hlt => ?_
          · exact .bind fun _ => .pure (hx.mono (by simp))
          refine (ih bound' hu (by omega) (by omega) (by omega)).bind (fun p xs hxs => ?_)
            fun xs v v' hv hlt' => .ok hv (by omega)
          exact .pure (hxs.mono fun x hx => List.mem_cons_of_mem _ hx)

theorem tandem_blockBody (h : s.Alike K s') (hn : s.ahead.length ≤ n) :
    Tandem K lacksStatements s.ahead.length (blockBody down s) (blockBody down' s') := by
  refine (tandem_expect h (by decide)).step fun o u u' hu hlt => ?_
  rw [bind_enterBlock, bind_enterBlock, hu.groupDepth]
  have hstatements := tandem_statements hdown .closeCurly down.bound down'.bound (hu.withDepth 0)
    (Nat.lt_of_lt_of_le hlt hn) (Nat.lt_of_lt_of_le hlt (Nat.le_trans hn hdown.bound))
    (Nat.lt_of_lt_of_le hlt (Nat.le_trans hn hdown.bound'))
  refine (tandem_exitBlock u.groupDepth hstatements).bind (fun p body hbody => ?_)
    fun body v v' hv hlt' => ?_
  · exact .bind fun _ => .bind fun _ => .pure hbody
  refine (tandem_expect hv (by decide)).step fun k w w' hw hlt'' => ?_
  rw [bind_record, bind_record]
  refine .ok (hw.record _) ?_
  exact Nat.lt_of_lt_of_le hlt'' (Nat.le_trans (Nat.le_of_lt_succ hlt') (Nat.le_of_lt hlt))

end Statements

/-! ## Functions, blocks and conditionals -/

section Branches

variable (hdown : down.Tandem K n down')

include hdown

theorem tandem_functionBody (typed : Bool) (h : s.Alike K s') (hn : s.ahead.length ≤ n) :
    Tandem K (LacksIn Body.nodes) s.ahead.length (functionBody down typed s)
      (functionBody down' typed s') := by
  unfold functionBody
  rw [bind_currentKind, bind_currentKind, h.current]
  cases hkind : s.current.kind
  case arrow =>
    refine (tandem_advance_kind h hkind (by decide)).step fun t u u' hu hlt => ?_
    exact ((hdown.statementExpr hu (by omega)).map fun p e he => he.mono fun x hx => hx).weaken
      (Nat.le_of_lt hlt)
  case openCurly =>
    exact (tandem_blockBody hdown h hn).map fun p body hbody => hbody.mono fun x hx => hx
  all_goals exact tandem_unexpected _ h

omit hdown in
theorem tandem_functionName (h : s.Alike K s') :
    Tandem K lacksNothing (s.ahead.length + 1) (functionName s) (functionName s') := by
  unfold functionName
  rw [bind_standsAt, bind_standsAt, h.current]
  split
  · next hkind =>
    exact (tandem_advance_kind h (of_decide_eq_true hkind) (by decide)).step
      fun t u u' hu hlt => .ok hu (by omega)
  · exact .ok h (Nat.lt_succ_self _)

theorem tandem_function (h : s.Alike K s') (hn : s.ahead.length ≤ n) :
    Tandem K lacksExpr s.ahead.length (function down s) (function down' s') := by
  unfold function
  rw [bind_currentKind, bind_currentKind, h.current, bind_record, bind_record]
  refine (tandem_expect (h.record _) (by decide)).step fun k u u' hu hlt => ?_
  have hltu : u.ahead.length < s.ahead.length := hlt
  refine (tandem_functionName hu).step fun name v v' hv hltv => ?_
  refine (tandem_expectOr _ hv (by decide)).step fun o w w' hw hltw => ?_
  refine (tandem_delimited (tandem_parameter hdown) hdown.bound hdown.bound' (by decide) hw
    (by omega)).bind (fun p list hlist => ?_) fun list x x' hx hltx => ?_
  · refine .bind fun _ => .bind fun _ => .bind fun _ => .bind fun _ => .bind fun _ =>
      .bind fun _ => .pure (hlist.below List.mem_cons_self fun x hx => ?_)
    exact List.mem_append_left _ hx
  rw [bind_setInReturnType, bind_setInReturnType, hx.inReturnType]
  have hltt : (ParseState.ahead { x with inReturnType := true }).length = x.ahead.length := rfl
  refine (tandem_typeAfterColon hdown (hx.withReturnType true) (by omega)).bind
    (fun p type htype => ?_) fun type y y' hy hlty => ?_
  · refine .bind fun _ => .bind fun _ => .bind fun _ => .bind fun _ =>
      .pure (htype.below List.mem_cons_self fun x hx => ?_)
    exact List.mem_append_right _ (List.mem_append_left _ hx)
  rw [bind_setInReturnType, bind_setInReturnType]
  have hltb : (ParseState.ahead { y with inReturnType := false }).length = y.ahead.length := rfl
  refine (tandem_functionBody hdown _ (hy.withReturnType false) (by omega)).bind
    (fun p body hbody => ?_) fun body z z' hz hltz => ?_
  · refine .bind fun _ => .bind fun _ => .pure (hbody.below List.mem_cons_self fun x hx => ?_)
    exact List.mem_append_right _ (List.mem_append_right _ hx)
  rw [bind_setInReturnType, bind_setInReturnType, bind_spanFrom, bind_spanFrom,
    (hz.withReturnType _).spanFrom]
  refine .ok (hz.withReturnType _) ?_
  show z.ahead.length < s.ahead.length
  omega

theorem tandem_block (kind : BlockKind) (h : s.Alike K s') (hn : s.ahead.length ≤ n) :
    Tandem K lacksExpr s.ahead.length (block down kind s) (block down' kind s') := by
  unfold block
  rw [bind_record, bind_record]
  refine (tandem_expect (h.record _) (by decide)).step fun k u u' hu hlt => ?_
  have hltu : u.ahead.length < s.ahead.length := hlt
  refine (tandem_blockBody hdown hu (by omega)).bind (fun p body hbody => ?_)
    fun body v v' hv hltv => ?_
  · exact .bind fun _ => .pure (hbody.below List.mem_cons_self fun x hx => hx)
  rw [bind_spanFrom, bind_spanFrom, hv.spanFrom]
  exact .ok hv (by omega)

omit hdown in
theorem tandem_skipThen (h : s.Alike K s') :
    Tandem K lacksNothing (s.ahead.length + 1) (skipThen s) (skipThen s') := by
  unfold skipThen
  rw [bind_current, bind_current, h.current]
  split
  · next hword =>
    have hkind := Token.kind_of_keyword? (Token.isKeyword_iff.mp hword)
    exact (tandem_advance_kind h hkind (by decide)).step fun t u u' hu hlt => .ok hu (by omega)
  · exact .ok h (Nat.lt_succ_self _)

/-- What a conditional lacks that began at `start` and ends with this branch for the other
case. -/
def lacksElse (start p : Position) (otherwise : Option (Expr Span)) : Prop :=
  otherwise = none ∧ start = p ∨ LacksIn Node.optional p otherwise

/-- The place where two descents part. -/
theorem tandem_elseBranch (valueRequired : Bool) (start : Position) (h : s.Alike K s')
    (hn : s.ahead.length ≤ n) :
    Tandem K (lacksElse start) (s.ahead.length + 1) (elseBranch down valueRequired start s)
      (elseBranch down' valueRequired start s') := by
  unfold elseBranch
  rw [bind_current, bind_current, h.current]
  split
  · next hword =>
    have hkind := Token.kind_of_keyword? (Token.isKeyword_iff.mp hword)
    refine (tandem_advance_kind h hkind (by decide)).step fun _ u u' hu hlt => ?_
    refine (hdown.statementExpr hu (by omega)).bind (fun p e he => ?_)
      fun e v v' hv hlt' => .ok hv (by omega)
    exact .pure (.inr he)
  · obtain hsame | ⟨hstricter, hlax, hstrict⟩ := hdown.elseRequired
    · rw [hsame]
      split
      · exact tandem_fail _ h
      · exact .ok h (Nat.lt_succ_self _)
    · rw [hlax, hstrict, Bool.and_false, Bool.and_true, if_neg Bool.false_ne_true]
      split
      · refine .lacking hstricter fun b t hb => ?_
        cases hb
        exact .inl ⟨rfl, rfl⟩
      · exact .ok h (Nat.lt_succ_self _)

theorem tandem_conditional (valueRequired : Bool) (h : s.Alike K s') (hne : s.current.kind ≠ .eof)
    (hn : s.ahead.length ≤ n) :
    Tandem K lacksExpr s.ahead.length (conditional down valueRequired s)
      (conditional down' valueRequired s') := by
  unfold conditional
  rw [bind_record, bind_record]
  refine (tandem_advance (h.record _) hne).step fun k u u' hu hlt => ?_
  have hltu : u.ahead.length < s.ahead.length := hlt
  refine (hdown.expr hu (by omega)).bind (fun p c hc => ?_) fun c v v' hv hltv => ?_
  · refine .bind fun _ => .bind fun _ => .bind fun _ => .bind fun _ =>
      .pure (hc.below List.mem_cons_self (by simp [Node.children]))
  refine (tandem_skipThen hv).step fun _ w w' hw hltw => ?_
  refine (hdown.statementExpr hw (by omega)).bind (fun p b hb => ?_) fun b x x' hx hltx => ?_
  · exact .bind fun _ => .bind fun _ =>
      .pure (hb.below List.mem_cons_self (by simp [Node.children]))
  refine (tandem_elseBranch hdown valueRequired k.span.start hx (by omega)).bind
    (fun p o ho => ?_) fun o y y' hy hlty => ?_
  · intro t e t' he
    rw [bind_spanFrom] at he
    cases he
    obtain ⟨rfl, rfl⟩ | ho := ho
    · exact ⟨_, List.mem_cons_self, .here rfl⟩
    · exact ho.below List.mem_cons_self fun x hx => by simp [Node.children, hx]
  rw [bind_spanFrom, bind_spanFrom, hy.spanFrom]
  exact .ok hy (by omega)

omit hdown in
/-- The question whether a curly bracket belongs to a word has the same answer on both sides. -/
theorem tandem_opensCurly {β : Type} {lacks : Position → β → Prop} {m : Nat}
    {f f' : Bool → Parse β} (h : s.Alike K s') (hne : s.current.kind ≠ .eof)
    (hf : ∀ b u u', u.Alike K u' → u.ahead = s.ahead → Tandem K lacks m (f b u) (f' b u')) :
    Tandem K lacks m ((opensCurly >>= f) s) ((opensCurly >>= f') s') := by
  unfold opensCurly
  rw [bind_assoc, bind_assoc, bind_get, bind_get, h.inReturnType]
  split
  · exact hf false s s' h rfl
  · rw [bind_assoc, bind_assoc]
    refine tandem_peek h hne fun t u u' hu _ hahead => ?_
    rw [pure_bind, pure_bind]
    exact hf _ u u' hu hahead

omit hdown in
/-- A word that opens a block, a set or a map, or is a plain label. -/
theorem tandem_opener {production production' : Parse (Expr Span)}
    (hproduction : ∀ {u u' : ParseState}, u.Alike K u' → u.ahead.length ≤ n →
      Tandem K lacksExpr u.ahead.length (production u) (production' u'))
    (h : s.Alike K s') (hne : s.current.kind ≠ .eof) (hn : s.ahead.length ≤ n) :
    Tandem K lacksExpr s.ahead.length
      ((do if ← opensCurly then production else plainLabel : Parse (Expr Span)) s)
      ((do if ← opensCurly then production' else plainLabel : Parse (Expr Span)) s') := by
  refine tandem_opensCurly h hne fun b u u' hu hahead => ?_
  rw [← hahead] at hn ⊢
  split
  · exact hproduction hu hn
  · exact tandem_plainLabel hu

theorem tandem_label (h : s.Alike K s') (hn : s.ahead.length ≤ n) :
    Tandem K lacksExpr s.ahead.length (label down s) (label down' s') := by
  unfold label
  rw [bind_current, bind_current, h.current]
  cases hword : s.current.keyword? with
  | none => exact tandem_plainLabel h
  | some keyword =>
    have hne : s.current.kind ≠ .eof := Token.ne_eof_of_keyword? hword
    cases keyword with
    | «if» => exact tandem_conditional hdown true h hne hn
    | «then» | «else» => exact tandem_unexpected _ h
    | fn => exact tandem_function hdown h hn
    | type => exact tandem_plainLabel h
    | «do» => exact tandem_opener (tandem_block hdown .do) h hne hn
    | scope => exact tandem_opener (tandem_block hdown .scope) h hne hn
    | set => exact tandem_opener (tandem_set hdown) h hne hn
    | map => exact tandem_opener (tandem_mapping hdown) h hne hn
    | true => exact tandem_boolean true h hne
    | false => exact tandem_boolean false h hne

end Branches

/-! ## Declarations and updates -/

section Changes

variable (hdown : down.Tandem K n down')

include hdown

theorem tandem_declaredType (h : s.Alike K s') (hn : s.ahead.length < n) :
    Tandem K (LacksIn Node.optional) (s.ahead.length + 1) (declaredType down s)
      (declaredType down' s') := by
  unfold declaredType
  rw [bind_standsAt, bind_standsAt, h.current]
  split
  · exact .ok h (Nat.lt_succ_self _)
  · refine (hdown.expr h hn).bind (fun p type htype => ?_)
      fun type u u' hu hlt => .ok hu (by omega)
    exact .pure (htype.mono fun x hx => hx)

theorem tandem_declaration (h : s.Alike K s') (hn : s.ahead.length ≤ n) :
    Tandem K lacksExpr s.ahead.length (declaration down s) (declaration down' s') := by
  unfold declaration
  rw [bind_current, bind_current, h.current, bind_record, bind_record]
  refine (tandem_expect (h.record _) (by decide)).step fun label u u' hu hlt => ?_
  have hltu : u.ahead.length < s.ahead.length := hlt
  refine (tandem_expect hu (by decide)).step fun o v v' hv hltv => ?_
  refine (tandem_declaredType hdown hv (by omega)).bind (fun p type htype => ?_)
    fun type w w' hw hltw => ?_
  · refine .bind fun _ => .bind fun _ => .bind fun _ =>
      .pure (htype.below List.mem_cons_self fun x hx => ?_)
    exact List.mem_append_left _ hx
  refine (tandem_expect hw (by decide)).step fun a x x' hx hltx => ?_
  refine (hdown.expr hx (by omega)).bind (fun p e he => ?_) fun e y y' hy hlty => ?_
  · refine .bind fun _ => .pure (he.below List.mem_cons_self fun x hx => ?_)
    exact List.mem_append_right _ hx
  rw [bind_spanFrom, bind_spanFrom, hy.spanFrom]
  exact .ok hy (by omega)

theorem tandem_update (h : s.Alike K s') (hn : s.ahead.length ≤ n) :
    Tandem K lacksExpr s.ahead.length (update down s) (update down' s') := by
  unfold update
  rw [bind_current, bind_current, h.current, bind_record, bind_record]
  refine (tandem_expect (h.record _) (by decide)).step fun label u u' hu hlt => ?_
  have hltu : u.ahead.length < s.ahead.length := hlt
  rw [bind_currentKind, bind_currentKind, hu.current]
  cases hupdater : Updater.ofKind? u.current.kind with
  | none => exact tandem_unexpected _ hu
  | some operator =>
    have hne : u.current.kind ≠ .eof := TokenKind.ne_of_some hupdater rfl
    refine (tandem_advance hu hne).step fun o v v' hv hltv => ?_
    refine (hdown.expr hv (by omega)).bind (fun p e he => ?_) fun e w w' hw hltw => ?_
    · exact .bind fun _ => .pure (he.below List.mem_cons_self fun x hx => hx)
    rw [bind_spanFrom, bind_spanFrom, hw.spanFrom]
    exact .ok hw (by omega)

end Changes

/-! ## Calls, members, suffixes and operators -/

section Following

variable {base left : Expr Span} {p : Position}

theorem tandem_call (hdown : down.Tandem K n down') (h : s.Alike K s')
    (hn : s.ahead.length ≤ n) :
    Tandem K lacksExpr s.ahead.length (call down base s) (call down' base s') := by
  refine (tandem_expect h (by decide)).step fun o u u' hu hlt => ?_
  refine (tandem_exprs hdown (by decide) hu (by omega)).bind (fun p list hlist => ?_)
    fun list v v' hv hltv => .ok hv (by omega)
  exact .pure (hlist.below List.mem_cons_self fun x hx => List.mem_cons_of_mem _ hx)

theorem tandem_member (h : s.Alike K s') :
    Tandem K lacksExpr s.ahead.length (member base s) (member base s') := by
  refine (tandem_expect h (by decide)).step fun o u u' hu hlt => ?_
  refine (tandem_expect hu (by decide)).step fun name v v' hv hltv => ?_
  exact .ok hv (by omega)

theorem tandem_suffix (h : s.Alike K s') :
    Tandem K lacksExpr s.ahead.length (suffix base s) (suffix base s') := by
  unfold suffix
  rw [bind_currentKind, bind_currentKind, h.current]
  cases hsymbol : SuffixOperator.ofKind? s.current.kind with
  | none => exact tandem_unexpected _ h
  | some operator =>
    have hne : s.current.kind ≠ .eof := TokenKind.ne_of_some hsymbol rfl
    exact (tandem_advance h hne).step fun t u u' hu hlt => .ok hu hlt

theorem tandem_afterPoint (h : s.Alike K s') (hne : s.current.kind ≠ .eof) :
    Tandem K lacksExpr s.ahead.length (afterPoint base s) (afterPoint base s') := by
  refine tandem_peek h hne fun t u u' hu _ hahead => ?_
  rw [← hahead]
  split
  · exact tandem_member hu
  · exact tandem_suffix hu

/-! What an expression lacks, everything lacks that is made of it by what follows it. -/

theorem gives_call (hbase : lacksExpr p base) : Gives (call down base) (lacksExpr p) :=
  .bind fun _ => .bind fun _ => .pure (hbase.below List.mem_cons_self (by simp [Node.children]))

theorem gives_member (hbase : lacksExpr p base) : Gives (member base) (lacksExpr p) :=
  .bind fun _ => .bind fun _ => .pure (hbase.below List.mem_cons_self fun _ hx => hx)

theorem gives_suffix (hbase : lacksExpr p base) : Gives (suffix base) (lacksExpr p) := by
  refine .bind fun kind => ?_
  cases SuffixOperator.ofKind? kind with
  | none => exact .unexpected
  | some operator =>
    exact .bind fun _ => .pure (hbase.below List.mem_cons_self fun _ hx => hx)

theorem gives_afterPoint (hbase : lacksExpr p base) : Gives (afterPoint base) (lacksExpr p) :=
  .bind fun _ => .ite (gives_member hbase) (gives_suffix hbase)

/-- The induction is on the bound of the loop. -/
theorem gives_suffixChain (bound : Nat) (hbase : lacksExpr p base) :
    Gives (suffixChain down bound base) (lacksExpr p) := by
  induction bound generalizing base with
  | zero => exact fun _ _ _ h => nomatch h
  | succ bound ih =>
    unfold suffixChain
    refine .bind fun _ => .ite (.pure hbase) (.bind fun kind => ?_)
    cases kind
    case openParen => exact .seq (gives_call hbase) fun _ h => ih h
    case dot => exact .seq (gives_afterPoint hbase) fun _ h => ih h
    case dollar | hash | question => exact .seq (gives_suffix hbase) fun _ h => ih h
    all_goals exact .pure hbase

theorem gives_binary (power : Power) (hleft : lacksExpr p left) :
    Gives (binary down left power) (lacksExpr p) := by
  refine .bind fun t => ?_
  cases BinaryOperator.ofKind? t.kind with
  | none => exact fun _ _ _ h => nomatch h
  | some operator =>
    exact .bind fun _ => .pure (hleft.below List.mem_cons_self (by simp [Node.children]))

theorem gives_following (rule : InfixRule) (power : Power) (hleft : lacksExpr p left) :
    Gives (following down rule left power) (lacksExpr p) := by
  cases rule with
  | binary => exact gives_binary power hleft
  | call => exact gives_call hleft
  | member => exact gives_member hleft
  | suffix => exact gives_suffix hleft
  | suffixChain => exact gives_suffixChain _ hleft

/-- The induction is on the bound of the loop. -/
theorem gives_operators (power : Power) (bound : Nat) (hleft : lacksExpr p left) :
    Gives (operators down power bound left) (lacksExpr p) := by
  induction bound generalizing left with
  | zero => exact fun _ _ _ h => nomatch h
  | succ bound ih =>
    unfold operators
    refine .bind fun _ => .ite (.pure hleft) (.bind fun kind => ?_)
    cases down.rules.operator? kind with
    | none => exact .pure hleft
    | some entry =>
      exact .ite (.pure hleft) (.seq (gives_following _ _ hleft) fun _ h => ih h)

/-- The induction is on the bound of the first loop, of which every round passes a token. -/
theorem tandem_suffixChain (hdown : down.Tandem K n down') (bound bound' : Nat)
    (h : s.Alike K s') (hn : s.ahead.length ≤ n) (hbound : s.ahead.length < bound)
    (hbound' : s.ahead.length < bound') :
    Tandem K lacksExpr (s.ahead.length + 1) (suffixChain down bound base s)
      (suffixChain down' bound' base s') := by
  induction bound generalizing bound' base s s' with
  | zero => omega
  | succ bound ih =>
    obtain ⟨bound', rfl⟩ := Nat.exists_eq_add_of_lt (Nat.zero_lt_of_lt hbound')
    rw [Nat.zero_add]
    have hmore {e : Expr Span} {u u' : ParseState} (hu : u.Alike K u')
        (hlt : u.ahead.length < s.ahead.length) :
        Tandem K lacksExpr (s.ahead.length + 1) (suffixChain down bound e u)
          (suffixChain down' bound' e u') :=
      (ih bound' hu (by omega) (by omega) (by omega)).weaken (by omega)
    have hlacks (p : Position) (e : Expr Span) (he : lacksExpr p e) :
        Gives (suffixChain down bound e) (lacksExpr p) :=
      gives_suffixChain bound he
    unfold suffixChain
    rw [bind_atLineBreak, bind_atLineBreak, h.atLineBreak]
    split
    · exact .ok h (Nat.lt_succ_self _)
    · rw [bind_currentKind, bind_currentKind, h.current]
      cases hkind : s.current.kind
      case openParen =>
        exact (tandem_call hdown h hn).bind hlacks fun _ _ _ hu hlt => hmore hu hlt
      case dot =>
        exact (tandem_afterPoint h (hkind ▸ by decide)).bind hlacks fun _ _ _ hu hlt =>
          hmore hu hlt
      case dollar | hash | question =>
        exact (tandem_suffix h).bind hlacks fun _ _ _ hu hlt => hmore hu hlt
      all_goals exact .ok h (Nat.lt_succ_self _)

theorem tandem_binary (hdown : down.Tandem K n down') (power : Power)
    (h : s.Alike K s') (hne : s.current.kind ≠ .eof) (hn : s.ahead.length ≤ n) :
    Tandem K lacksExpr s.ahead.length (binary down left power s)
      (binary down' left power s') := by
  refine (tandem_advance h hne).step fun t u u' hu hlt => ?_
  cases BinaryOperator.ofKind? t.kind with
  | none => exact tandem_fail _ hu
  | some operator =>
    refine (hdown.expr hu (by omega)).bind (fun p right hright => ?_)
      fun right v v' hv hltv => .ok hv (by omega)
    exact .pure (hright.below List.mem_cons_self (by simp [Node.children]))

/-- The induction is on the bound of the first loop, of which every round passes a token. -/
theorem tandem_operators (hdown : down.Tandem K n down') (power : Power)
    (bound bound' : Nat) (h : s.Alike K s') (hn : s.ahead.length ≤ n)
    (hbound : s.ahead.length < bound) (hbound' : s.ahead.length < bound') :
    Tandem K lacksExpr (s.ahead.length + 1) (operators down power bound left s)
      (operators down' power bound' left s') := by
  induction bound generalizing bound' left s s' with
  | zero => omega
  | succ bound ih =>
    obtain ⟨bound', rfl⟩ := Nat.exists_eq_add_of_lt (Nat.zero_lt_of_lt hbound')
    rw [Nat.zero_add]
    unfold operators
    rw [bind_atLineBreak, bind_atLineBreak, h.atLineBreak]
    split
    · exact .ok h (Nat.lt_succ_self _)
    · rw [bind_currentKind, bind_currentKind, h.current, hdown.rules, hdown.rules']
      cases hsymbol : BinaryOperator.ofKind? s.current.kind with
      | none =>
        simp only [Rules.standard, hsymbol]
        exact .ok h (Nat.lt_succ_self _)
      | some operator =>
        have hne : s.current.kind ≠ .eof := TokenKind.ne_of_some hsymbol rfl
        simp only [Rules.standard, hsymbol, Option.map_some]
        split
        · exact .ok h (Nat.lt_succ_self _)
        · refine (tandem_binary hdown operator.level h hne hn).bind
            (fun p e he => gives_operators power bound he) fun e u u' hu hlt => ?_
          exact (ih bound' hu (by omega) (by omega) (by omega)).weaken (by omega)

end Following

/-! ## Whole expressions -/

section Whole

variable (hdown : down.Tandem K n down')

include hdown

theorem tandem_primary {kind : TokenKind} {rule : PrimaryRule}
    (hrule : Rules.standardPrimary? kind = some rule) (h : s.Alike K s')
    (hn : s.ahead.length ≤ n) :
    Tandem K lacksExpr s.ahead.length (primary down rule s) (primary down' rule s') := by
  cases kind <;> cases hrule
  case number | string | char => exact tandem_literal h
  case identifier => exact tandem_label hdown h hn
  case openParen => exact tandem_tuple hdown h hn
  case openBracket => exact tandem_array hdown h hn
  case openCurly => exact tandem_object hdown h hn

theorem tandem_expr (power : Power) (h : s.Alike K s') (hn : s.ahead.length ≤ n) :
    Tandem K lacksExpr s.ahead.length (expr down power s) (expr down' power s') := by
  unfold expr
  rw [bind_currentKind, bind_currentKind, h.current, bind_record, bind_record, hdown.rules,
    hdown.rules']
  cases hrule : Rules.standardPrimary? s.current.kind with
  | none =>
    simp only [Rules.standard, hrule]
    exact tandem_unexpected _ (h.record _)
  | some rule =>
    simp only [Rules.standard, hrule]
    have hbound := hdown.bound
    have hbound' := hdown.bound'
    refine (tandem_primary hdown hrule (h.record _) hn).bind (fun p e he => ?_)
      fun e u u' hu hlt => ?_
    · exact .seq (gives_suffixChain _ he) fun _ h => gives_operators power _ h
    have hltu : u.ahead.length < s.ahead.length := hlt
    refine (tandem_suffixChain hdown down.bound down'.bound hu (by omega) (by omega)
      (by omega)).bind (fun p f hf => gives_operators power _ hf) fun f v v' hv hltv => ?_
    exact (tandem_operators hdown power down.bound down'.bound hv (by omega) (by omega)
      (by omega)).weaken (by omega)

theorem tandem_statementExpr (valueRequired : Bool) (h : s.Alike K s') (hn : s.ahead.length ≤ n) :
    Tandem K lacksExpr s.ahead.length (statementExpr down valueRequired s)
      (statementExpr down' valueRequired s') := by
  unfold statementExpr
  rw [bind_currentKind, bind_currentKind, h.current]
  refine tandem_record _ h fun v v' hv hahead => ?_
  rw [← hahead] at hn ⊢
  rw [bind_standsAt, bind_standsAt, hv.current]
  split
  · next hkind =>
    have hne : v.current.kind ≠ .eof := of_decide_eq_true hkind ▸ by decide
    refine tandem_peek hv hne fun t u u' hu hcurrent hahead => ?_
    rw [← hahead] at hn ⊢
    split
    · exact tandem_declaration hdown hu hn
    · split
      · exact tandem_update hdown hu hn
      · rw [bind_current, bind_current, hu.current]
        split
        · refine tandem_conditional hdown valueRequired hu ?_ hn
          rw [hcurrent]
          exact hne
        · exact tandem_expr hdown .default hu hn
  · exact tandem_expr hdown .default hv hn

end Whole

end Parse

/-! ## All levels -/

/-- The calls a level below go the same way, at all numbers of levels. -/
theorem tandem_descent {K : Comparison} {elseRequired elseRequired' : Bool}
    (h : elseRequired' = elseRequired ∨
      K.stricter ∧ elseRequired = false ∧ elseRequired' = true) {n levels levels' : Nat}
    (hlevels : n ≤ levels) (hlevels' : n ≤ levels') :
    (descent .standard elseRequired levels).Tandem K n
      (descent .standard elseRequired' levels') := by
  induction n generalizing levels levels' with
  | zero =>
    exact ⟨rules_descent .., rules_descent .., Nat.zero_le _, Nat.zero_le _, by simpa using h,
      fun _ hn => absurd hn (Nat.not_lt_zero _), fun _ hn => absurd hn (Nat.not_lt_zero _)⟩
  | succ n ih =>
    obtain ⟨levels, rfl⟩ := Nat.exists_eq_add_of_lt hlevels
    obtain ⟨levels', rfl⟩ := Nat.exists_eq_add_of_lt hlevels'
    have hdown := ih (Nat.le_add_right n levels) (Nat.le_add_right n levels')
    exact ⟨rfl, rfl, hlevels, hlevels', h,
      fun h hn => Parse.tandem_expr hdown _ h (Nat.le_of_lt_succ hn),
      fun h hn => Parse.tandem_statementExpr hdown _ h (Nat.le_of_lt_succ hn)⟩

/-- Descents that ask for the same branches. -/
theorem tandem_descent_same (K : Comparison) (elseRequired : Bool) {n levels levels' : Nat}
    (hlevels : n ≤ levels) (hlevels' : n ≤ levels') :
    (descent .standard elseRequired levels).Tandem K n
      (descent .standard elseRequired levels') :=
  tandem_descent (.inl rfl) hlevels hlevels'

/-- What a module lacks. -/
abbrev lacksModule : Position → Module → Prop := LacksIn fun m => m.body.map .stmt

/-- Parses of a whole source go the same way. -/
theorem tandem_wholeSource {K : Comparison} {n : Nat} {down down' : Descent} {s s' : ParseState}
    (file : String) (hdown : down.Tandem K n down') (h : s.Alike K s')
    (hn : s.ahead.length < n) :
    Tandem K lacksModule (s.ahead.length + 1) (Parse.wholeSource file down s)
      (Parse.wholeSource file down' s') := by
  refine (Parse.tandem_statements hdown .eof down.bound down'.bound h hn
    (Nat.lt_of_lt_of_le hn hdown.bound) (Nat.lt_of_lt_of_le hn hdown.bound')).bind
    (fun p body hbody => ?_) fun body u u' hu hlt => ?_
  · exact .bind fun _ => .bind fun _ => .pure hbody
  · rw [Parse.bind_get, Parse.bind_get, Parse.bind_record, Parse.bind_record, hu.position]
    exact .ok (hu.record _) hlt

/-! ## Whole sources -/

section Source

variable {source : String} {settings : Settings}

theorem parse_of_start_error {e : Error} (h : ParseState.start source settings = .error e) :
    parse source settings = .error (.error e) := by
  unfold parse parseRecorded
  rw [h]

/-- The parse of a source is a run of the production for whole sources. -/
theorem parse_of_start {s : ParseState} (h : ParseState.start source settings = .ok s) :
    parse source settings =
      match Parse.wholeSource settings.file
        (descent .standard settings.elseRequired s.levels) s with
      | .ok m _ => .ok m
      | .error failure _ => .error failure := by
  unfold parse parseRecorded
  rw [h]
  dsimp only [Parse.bounded]
  generalize Parse.wholeSource settings.file _ s = r
  cases r <;> rfl

/-- With any number of levels that is greater than that of the tokens the same comes out. -/
theorem wholeSource_of_levels {s : ParseState} (file : String) (elseRequired : Bool)
    (hs : s.Placed) {levels : Nat} (hlevels : s.ahead.length < levels) :
    Parse.wholeSource file (descent .standard elseRequired levels) s =
      Parse.wholeSource file (descent .standard elseRequired s.levels) s := by
  have hwhole := tandem_wholeSource file
    (tandem_descent_same .same elseRequired hlevels s.length_ahead_lt_levels) (.refl hs)
    (Nat.lt_succ_self _)
  exact hwhole.eq.symm

/-- The parse of a source is a run of the production for statements, with any number of levels that
is greater than that of the tokens. -/
theorem parse_of_levels {s : ParseState} (h : ParseState.start source settings = .ok s)
    {levels : Nat} (hlevels : s.ahead.length < levels) :
    parse source settings =
      match Parse.statements (descent .standard settings.elseRequired levels) .eof levels s with
      | .ok body s' => .ok ⟨body, ⟨⟨0, settings.file⟩, s'.position⟩⟩
      | .error failure _ => .error failure := by
  rw [parse_of_start h, ← wholeSource_of_levels settings.file settings.elseRequired
    (ParseState.of_start h).1 hlevels]
  unfold Parse.wholeSource
  rw [bound_descent]
  cases hbody : Parse.statements (descent .standard settings.elseRequired levels) .eof levels s with
  | ok body s' => rw [Parse.bind_of_ok hbody]; rfl
  | error failure s' => rw [Parse.bind_of_error hbody]

/-- The bound on levels is never reached, so what ends a parse that fails is an error. -/
theorem exists_error_of_parse {failure : Failure} (h : parse source settings = .error failure) :
    ∃ e, failure = .error e := by
  cases hstart : ParseState.start source settings with
  | error e =>
    rw [parse_of_start_error hstart] at h
    cases h
    exact ⟨e, rfl⟩
  | ok s =>
    have hwhole := tandem_wholeSource settings.file
      (tandem_descent_same .same settings.elseRequired (Nat.le_refl s.levels)
        (Nat.le_refl s.levels))
      (.refl (ParseState.of_start hstart).1) s.length_ahead_lt_levels
    rw [parse_of_start hstart] at h
    split at h
    · cases h
    · next failure' s' hresult =>
      cases h
      cases failure with
      | error e => exact ⟨e, rfl⟩
      | exhausted => exact absurd hresult (hwhole.ne_exhausted s')

end Source

end SurfaceGrammar

import SurfaceGrammar.Proofs.Grammar.Leaves
import SurfaceGrammar.Proofs.Grammar.Soundness
import SurfaceGrammar.Proofs.Grammar.Tandem
import SurfaceGrammar.Proofs.Parse.Twins
import SurfaceGrammar.Proofs.Tree.Bare

/-!
# Parsing does not look at positions

Two parses over corresponding tokens go the same way: every production succeeds on both sides with
trees that differ in their spans alone, or fails on both sides with errors that correspond. If the
second source goes on where the first one ends, this holds as long as the first parse succeeds.
There, the first parse can only leave the expressions that it is in, which the second one does as
well, and every production that asks for another token fails. Lists and blocks ask for the token
that closes them, so what their elements and statements do there does not matter.

* `Descent.Agrees`: the calls a level below agree.
* `agrees_descent`: they do at every number of levels.
* `Parse.agree_statements`: a list of statements in a block, or of two sources that end together.
* `parse_of_streams`: what comes out for two sources that end together.
-/

namespace SurfaceGrammar

variable {α : Type}

/-- The calls a level below agree, by the rules of the language, and no expression begins with a
token for which there is no rule. A colon behind a label begins a declaration in the place of a
statement. -/
structure Descent.Agrees (K : Correspondence α) (down : Descent) : Prop where
  sound : down.Sound
  expr : ∀ {power : Power} {s s' : ParseState}, s.Meets K s' →
    Agree K (K.Alike Expr.mapMark) (down.expr power s) (down.expr power s')
  branch : ∀ {valueRequired : Bool} {s s' : ParseState}, K.Colonless → s.Meets K s' →
    Agree K (K.Alike Expr.mapMark) (down.statementExpr valueRequired s)
      (down.statementExpr valueRequired s')
  statementExpr : ∀ {valueRequired : Bool} {s s' : ParseState}, s.Meets K s' →
    AgreeOrEnded K (K.Alike Expr.mapMark) (down.statementExpr valueRequired s)
      (down.statementExpr valueRequired s')
  fails_expr : ∀ {power : Power} {s : ParseState},
    Rules.standardPrimary? s.current.kind = none → Parse.Fails (down.expr power) s
  fails_statementExpr : ∀ (valueRequired : Bool) {s : ParseState},
    Rules.standardPrimary? s.current.kind = none → Parse.Fails (down.statementExpr valueRequired) s

/-- No expression begins at the end of a source. -/
theorem Descent.Agrees.fails {K : Correspondence α} {down : Descent} (hdown : down.Agrees K)
    {power : Power} {s : ParseState} (heof : s.current.kind = .eof) :
    Parse.Fails (down.expr power) s :=
  hdown.fails_expr (by rw [heof]; rfl)

/-- What two parses make of the same delimited list. -/
structure Correspondence.Lists (K : Correspondence α) {β γ : Type} (view : (Span → α) → β → γ)
    (list list' : Parse.Delimited β) : Prop where
  elements : list'.elements.map (view K.new) = list.elements.map (view K.old)
  trailingComma : list'.trailingComma = list.trailingComma
  closing : K.token list.closing list'.closing

namespace Parse

variable {K : Correspondence α} {down : Descent} {s s' : ParseState}

/-- The state after something was recorded. -/
theorem meets_of_record (event event' : Event) (h : s.Meets K s') :
    ParseState.Meets K { s with events := s.events.push event }
      { s' with events := s'.events.push event' } :=
  h.congr rfl rfl rfl rfl h.groupDepth h.inReturnType

theorem fails_expectOr {kind : TokenKind} {expected : List TokenKind} (heof : s.current.kind = .eof)
    (hne : kind ≠ .eof) : Fails (expectOr kind expected) s := by
  unfold expectOr Fails
  rw [bind_currentKind, if_neg (by rw [heof]; exact hne.symm)]
  exact ⟨_, _, rfl⟩

/-! ## Literals and labels -/

theorem agree_literal (h : s.Meets K s') (hne : s.current.kind ≠ .eof) :
    Agree K (K.Alike Expr.mapMark) (literal s) (literal s') := by
  have ht := h.token hne
  unfold literal
  rw [bind_current, bind_current, K.kind ht, K.value ht]
  cases hkind : s.current.kind
  case number =>
    dsimp only
    cases (Decimal.read? s.current.value.toList).filter Binary64.isFinite with
    | none => exact agree_fail (K.located _ ht)
    | some x =>
      refine (agree_advance_kind h hkind (by decide)).bind fun t t' u u' ht' hu => ?_
      exact .ok (by simp only [Correspondence.Alike, Expr.mapMark, K.spans ht']) hu
  case string =>
    refine (agree_advance_kind h hkind (by decide)).bind fun t t' u u' ht' hu => ?_
    exact .ok (by simp only [Correspondence.Alike, Expr.mapMark, K.spans ht']) hu
  case char =>
    dsimp only
    cases s.current.value.toList with
    | nil => exact agree_unexpected _ h
    | cons c rest =>
      refine (agree_advance_kind h hkind (by decide)).bind fun t t' u u' ht' hu => ?_
      exact .ok (by simp only [Correspondence.Alike, Expr.mapMark, K.spans ht']) hu
  all_goals exact agree_unexpected _ h

theorem agree_boolean (value : Bool) (h : s.Meets K s') (hne : s.current.kind ≠ .eof) :
    Agree K (K.Alike Expr.mapMark) (boolean value s) (boolean value s') := by
  refine (agree_advance h hne).bind fun t t' u u' ht hu => ?_
  exact .ok (by simp only [Correspondence.Alike, Expr.mapMark, K.spans ht]) hu

theorem agree_plainLabel (h : s.Meets K s') :
    Agree K (K.Alike Expr.mapMark) (plainLabel s) (plainLabel s') := by
  refine (agree_expect h (by decide)).bind fun t t' u u' ht hu => ?_
  exact .ok (by simp only [Correspondence.Alike, Expr.mapMark, K.value ht, K.spans ht]) hu

/-! ## Delimited lists -/

section Delimited

variable {β γ : Type} {view : (Span → α) → β → γ} {close : TokenKind} {element : Parse β}

/-- The induction is on the bound of the loop. Where the first source ends no element begins, and
behind an element the first parse leaves the loop there. -/
theorem agree_elements
    (helement : ∀ {s s' : ParseState}, s.Meets K s' →
      Agree K (K.Alike view) (element s) (element s'))
    (hfails : ∀ {s : ParseState}, s.current.kind = .eof → Fails element s) (hclose : close ≠ .eof)
    (bound : Nat) (afterComma : Bool) (h : s.Follows K s') :
    AgreeOrEnded K (fun xs xs' => xs'.1.map (view K.new) = xs.1.map (view K.old) ∧ xs'.2 = xs.2)
      (elements close element bound afterComma s) (elements close element bound afterComma s') := by
  induction bound generalizing afterComma s s' with
  | zero => exact .inl (.lost (.inl rfl))
  | succ bound ih =>
    obtain ⟨ht, -⟩ | ⟨heof, q, hq, -⟩ := h.cases_kind
    · unfold elements
      rw [bind_standsAt, bind_standsAt, K.kind ht]
      split
      · exact .inl (.ok ⟨rfl, rfl⟩ h)
      · refine .after (helement h.toMeets) fun x x' u u' hx hu => ?_
        obtain ⟨hut, -⟩ | ⟨heof, q, hq, -⟩ := hu.cases_kind
        · rw [bind_standsAt, bind_standsAt, K.kind hut]
          split
          · next hstands =>
            refine .after (agree_advance_kind hu.toMeets (of_decide_eq_true hstands) (by decide))
              fun t t' v v' _ hv => ?_
            refine (ih true hv).seq (fun xs xs' w w' hxs hw => ?_) fun _ _ _ => ⟨_, rfl⟩
            refine .inl (.ok ⟨?_, hxs.2⟩ hw)
            rw [List.map_cons, List.map_cons, hxs.1, show view K.new x' = view K.old x from hx]
          · refine .inl (.ok ⟨?_, rfl⟩ hu)
            rw [List.map_singleton, List.map_singleton, show view K.new x' = view K.old x from hx]
        · refine .inr ⟨by rw [hq]; rfl, ([x], false), u, ?_, heof⟩
          rw [bind_standsAt, heof, if_neg (by decide)]
          rfl
    · refine .inl (.of_fails hq ?_)
      unfold elements Fails
      rw [bind_standsAt, heof, decide_eq_false hclose.symm, if_neg (by decide)]
      exact (hfails heof).bind

theorem agree_delimited
    (helement : ∀ {s s' : ParseState}, s.Meets K s' →
      Agree K (K.Alike view) (element s) (element s'))
    (hfails : ∀ {s : ParseState}, s.current.kind = .eof → Fails element s) (hclose : close ≠ .eof)
    (bound : Nat) (h : s.Follows K s') :
    Agree K (K.Lists view) (delimited bound close element s)
      (delimited bound close element s') := by
  unfold delimited watchedDelimited
  rw [bind_enterGroup, bind_enterGroup, bind_setInReturnType, bind_setInReturnType,
    h.inReturnType]
  have henter : ParseState.Follows K
      { s with groupDepth := s.groupDepth + 1, inReturnType := false }
      { s' with groupDepth := s'.groupDepth + 1, inReturnType := false } :=
    h.congr rfl rfl rfl rfl rfl rfl (h.groupDepth.map (· + 1)) rfl
  refine (agree_elements helement hfails hclose bound false henter).bind ?_ ?_
  · rintro ⟨xs, comma⟩ ⟨xs', comma'⟩ u u' ⟨hxs, hcomma⟩ hu
    dsimp only at hxs hcomma ⊢
    rw [bind_atExit, bind_atExit, bind_exitGroup, bind_exitGroup, bind_setInReturnType,
      bind_setInReturnType]
    have hexit : ParseState.Follows K
        { u with groupDepth := u.groupDepth - 1, inReturnType := s.inReturnType }
        { u' with groupDepth := u'.groupDepth - 1, inReturnType := s.inReturnType } :=
      hu.congr rfl rfl rfl rfl rfl rfl (hu.groupDepth.map (· - 1)) rfl
    refine (agree_expectOr _ hexit.toMeets hclose).bind fun t t' v v' ht hv => ?_
    exact .ok ⟨hxs, hcomma, ht⟩ hv
  · rintro - ⟨xs, comma⟩ u heof
    simp only [Watch.atExit_idle, pure_bind]
    have hfail : Fails (expectOr close [.comma, close])
        { u with groupDepth := u.groupDepth - 1, inReturnType := s.inReturnType } :=
      fails_expectOr heof hclose
    exact hfail.bind

end Delimited

/-! ## Delimited expressions -/

section Composite

variable (hdown : down.Agrees K)

include hdown

theorem agree_exprs {close : TokenKind} (hclose : close ≠ .eof) (h : s.Follows K s') :
    Agree K (K.Lists Expr.mapMark) (delimited down.bound close (down.expr .default) s)
      (delimited down.bound close (down.expr .default) s') :=
  agree_delimited hdown.expr hdown.fails hclose down.bound h

theorem agree_entry (h : s.Meets K s') :
    Agree K (K.Alike Entry.mapMark) (entry down s) (entry down s') := by
  refine (hdown.expr h).bind fun key key' u u' hkey hu => ?_
  refine (agree_expect hu.toMeets (by decide)).bind fun t t' v v' _ hv => ?_
  refine (hdown.expr hv.toMeets).bind fun value value' w w' hvalue hw => ?_
  refine .ok ?_ hw
  simp only [Correspondence.Alike, Entry.mapMark, K.join_marks hkey hvalue, K.trees hkey,
    K.trees hvalue]

theorem fails_entry (heof : s.current.kind = .eof) : Fails (entry down) s :=
  (hdown.fails heof).bind

theorem agree_field (h : s.Meets K s') :
    Agree K (K.Alike Field.mapMark) (field down s) (field down s') := by
  refine (agree_expect h (by decide)).bind fun label label' u u' hlabel hu => ?_
  refine (agree_expect hu.toMeets (by decide)).bind fun t t' v v' _ hv => ?_
  refine (hdown.expr hv.toMeets).bind fun value value' w w' hvalue hw => ?_
  refine .ok ?_ hw
  simp only [Correspondence.Alike, Field.mapMark, K.value hlabel, K.trees hvalue,
    K.join (K.spans hlabel) (K.marks hvalue)]

omit hdown in
theorem fails_field (heof : s.current.kind = .eof) : Fails (field down) s :=
  (fails_expectOr heof (by decide)).bind

theorem agree_typeAfterColon (hcolon : K.Colonless) (h : s.Follows K s') :
    Agree K (K.Alike fun f => Option.map (Expr.mapMark f)) (typeAfterColon down s)
      (typeAfterColon down s') := by
  unfold typeAfterColon
  rw [bind_standsAt, bind_standsAt, h.colon hcolon]
  split
  · next hstands =>
    refine (agree_advance_kind h.toMeets (of_decide_eq_true hstands) (by decide)).bind
      fun t t' u u' _ hu => ?_
    refine (hdown.expr hu.toMeets).bind fun type type' v v' htype hv => ?_
    exact .ok (congrArg some htype) hv
  · exact .ok rfl h

theorem agree_parameter (hcolon : K.Colonless) (h : s.Meets K s') :
    Agree K (K.Alike Parameter.mapMark) (parameter down s) (parameter down s') := by
  refine (agree_expect h (by decide)).bind fun label label' u u' hlabel hu => ?_
  refine (agree_typeAfterColon hdown hcolon hu).bind fun type type' v v' htype hv => ?_
  refine .ok ?_ hv
  simp only [Correspondence.Alike, Parameter.mapMark, K.value hlabel, K.optional htype,
    hv.spanFrom (K.start hlabel)]

omit hdown in
theorem fails_parameter (heof : s.current.kind = .eof) : Fails (parameter down) s :=
  (fails_expectOr heof (by decide)).bind

theorem agree_tuple (h : s.Meets K s') :
    Agree K (K.Alike Expr.mapMark) (tuple down s) (tuple down s') := by
  refine (agree_expect h (by decide)).bind fun o o' u u' ho hu => ?_
  refine (agree_exprs hdown (by decide) hu).bind fun list list' v v' hlist hv => ?_
  have hspan := K.span (K.start ho) (K.stop hlist.closing)
  obtain ⟨es, comma, closing⟩ := list
  obtain ⟨es', comma', closing'⟩ := list'
  obtain ⟨hes, hcomma, -⟩ := hlist
  dsimp only at hes hcomma hspan ⊢
  subst hcomma
  have htuple : K.Alike Expr.mapMark (.sequence .tuple es ⟨o.span.start, closing.span.stop⟩)
      (.sequence .tuple es' ⟨o'.span.start, closing'.span.stop⟩) := by
    simp only [Correspondence.Alike, Expr.mapMark_sequence, hes, hspan]
  -- Both lists have as many elements, so both sides take the same branch.
  match es, es', comma', hes, htuple with
  | [e], [e'], false, hes, _ => exact .ok (List.singleton_inj.mp hes) hv
  | [], [], _, _, htuple => exact .ok htuple hv
  | [_], [_], true, _, htuple => exact .ok htuple hv
  | _ :: _ :: _, _ :: _ :: _, _, _, htuple => exact .ok htuple hv
  | [_], _ :: _ :: _, _, hes, _ | _ :: _ :: _, [_], _, hes, _ => exact absurd hes (by simp)

theorem agree_array (h : s.Meets K s') :
    Agree K (K.Alike Expr.mapMark) (array down s) (array down s') := by
  refine (agree_expect h (by decide)).bind fun o o' u u' ho hu => ?_
  refine (agree_exprs hdown (by decide) hu).bind fun list list' v v' hlist hv => ?_
  refine .ok ?_ hv
  simp only [Correspondence.Alike, Expr.mapMark_sequence, hlist.elements,
    K.span (K.start ho) (K.stop hlist.closing)]

theorem agree_object (h : s.Meets K s') :
    Agree K (K.Alike Expr.mapMark) (object down s) (object down s') := by
  refine (agree_expect h (by decide)).bind fun o o' u u' ho hu => ?_
  refine (agree_delimited (agree_field hdown) fails_field (by decide) _ hu).bind
    fun list list' v v' hlist hv => ?_
  refine .ok ?_ hv
  simp only [Correspondence.Alike, Expr.mapMark_object, hlist.elements,
    K.span (K.start ho) (K.stop hlist.closing)]

theorem agree_set (h : s.Meets K s') :
    Agree K (K.Alike Expr.mapMark) (set down s) (set down s') := by
  refine (agree_expect h (by decide)).bind fun k k' u u' hk hu => ?_
  refine (agree_expect hu.toMeets (by decide)).bind fun o o' v v' _ hv => ?_
  refine (agree_exprs hdown (by decide) hv).bind fun list list' w w' hlist hw => ?_
  refine .ok ?_ hw
  simp only [Correspondence.Alike, Expr.mapMark_sequence, hlist.elements,
    K.span (K.start hk) (K.stop hlist.closing)]

theorem agree_mapping (h : s.Meets K s') :
    Agree K (K.Alike Expr.mapMark) (mapping down s) (mapping down s') := by
  refine (agree_expect h (by decide)).bind fun k k' u u' hk hu => ?_
  refine (agree_expect hu.toMeets (by decide)).bind fun o o' v v' _ hv => ?_
  refine (agree_delimited (agree_entry hdown) (fails_entry hdown) (by decide) _ hv).bind
    fun list list' w w' hlist hw => ?_
  refine .ok ?_ hw
  simp only [Correspondence.Alike, Expr.mapMark_mapping, hlist.elements,
    K.span (K.start hk) (K.stop hlist.closing)]

end Composite

/-! ## Statements and blocks -/

section Statements

variable (hdown : down.Agrees K)

theorem agree_typeDefinition (hdown : down.Agrees K) (h : s.Meets K s')
    (hne : s.current.kind ≠ .eof) :
    Agree K (K.Alike Stmt.mapMark) (typeDefinition down s) (typeDefinition down s') := by
  refine (agree_advance h hne).bind fun k k' u u' hk hu => ?_
  refine (agree_expect hu.toMeets (by decide)).bind fun name name' v v' hname hv => ?_
  refine (agree_expect hv.toMeets (by decide)).bind fun a a' w w' _ hw => ?_
  refine (hdown.expr hw.toMeets).bind fun e e' z z' he hz => ?_
  refine .ok ?_ hz
  simp only [Correspondence.Alike, Stmt.mapMark, K.value hname, K.trees he,
    hz.spanFrom (K.start hk)]

/-- The question whether a type definition begins has the same answer on both sides. -/
theorem bind_beginsTypeDefinition {β γ : Type} {R : EStateM.Result Failure ParseState β →
      EStateM.Result Failure ParseState γ → Prop} {f : Bool → Parse β} {f' : Bool → Parse γ}
    (h : s.Meets K s')
    (herror : ∀ e e' t t', K.error e e' → R (.error (.error e) t) (.error (.error e') t'))
    (hf : ∀ b u u', u.Meets K u' → (b = true → u.current.kind ≠ .eof) → R (f b u) (f' b u')) :
    R ((beginsTypeDefinition >>= f) s) ((beginsTypeDefinition >>= f') s') := by
  unfold beginsTypeDefinition
  rw [bind_assoc, bind_assoc, bind_current, bind_current, h.isKeyword]
  split
  · next hword =>
    have hne := Token.ne_eof_of_keyword? (Token.isKeyword_iff.mp hword)
    rw [bind_assoc, bind_assoc]
    refine bind_peek h hne herror fun t t' u u' _ _ hfaces hline hu hcurrent _ => ?_
    have hbegins : (decide (t'.kind = .identifier) && !t'.newlineBefore) =
        (decide (t.kind = .identifier) && !t.newlineBefore) := by
      by_cases heof : t.kind = .eof
      · rw [hfaces.decides (fun kind => decide (kind = .identifier)) (by decide), heof]
        rfl
      · rw [hfaces.decides (fun kind => decide (kind = .identifier)) (by decide), hline heof]
    rw [pure_bind, pure_bind, hbegins]
    exact hf _ u u' hu fun _ => by rw [hcurrent]; exact hne
  · exact hf false s s' h nofun

theorem agree_statementContent (hdown : down.Agrees K) (h : s.Meets K s') :
    AgreeOrEnded K (K.Alike Stmt.mapMark) (statementContent down s) (statementContent down s') := by
  refine bind_beginsTypeDefinition h (fun _ _ _ _ he => .inl (.error he)) fun b u u' hu hne => ?_
  split
  · next hb => exact .inl (agree_typeDefinition hdown hu (hne hb))
  · refine (hdown.statementExpr hu).map fun e e' he => ?_
    simp only [Correspondence.Alike, Stmt.mapMark, K.trees he]

/-- A statement in front of anything but a colon. -/
theorem agree_content (hdown : down.Agrees K) (hcolon : K.Colonless) (h : s.Meets K s') :
    Agree K (K.Alike Stmt.mapMark) (statementContent down s) (statementContent down s') := by
  refine bind_beginsTypeDefinition h (fun _ _ _ _ he => .error he) fun b u u' hu hne => ?_
  split
  · next hb => exact agree_typeDefinition hdown hu (hne hb)
  · refine (hdown.branch hcolon hu).map fun e e' he => ?_
    simp only [Correspondence.Alike, Stmt.mapMark, K.trees he]

theorem agree_terminator (close : TokenKind) (h : s.Follows K s')
    (ht : K.token s.current s'.current) :
    Agree K (fun _ _ => True) (terminator close s) (terminator close s') := by
  unfold terminator
  rw [bind_current, bind_current, K.kind ht]
  split
  · next hsemicolon =>
    refine (agree_advance_kind h.toMeets hsemicolon (by decide)).bind fun t t' u u' _ hu => ?_
    exact .ok trivial hu
  · have hstops : (s.current.kind = close ∨ s.current.kind = .eof ∨
        s'.current.newlineBefore = true) ↔
        (s.current.kind = close ∨ s.current.kind = .eof ∨ s.current.newlineBefore = true) := by
      by_cases heof : s.current.kind = .eof
      · simp [heof]
      · rw [h.newlineBefore heof]
    simp only [hstops]
    split
    · exact .ok trivial h
    · exact agree_unexpected _ h.toMeets

/-- At the end of a source a statement ends. -/
theorem terminator_of_eof (close : TokenKind) (heof : s.current.kind = .eof) :
    terminator close s = .ok () s := by
  unfold terminator
  rw [bind_current, if_neg (by rw [heof]; decide), if_pos (.inr (.inl heof))]
  rfl

/-- A list of statements that another token closes cannot end with the source. -/
theorem fails_statements {close : TokenKind} (hclose : close ≠ .eof) (bound : Nat)
    (heof : s.current.kind = .eof) : Fails (statements down close bound) s := by
  cases bound with
  | zero => exact ⟨_, _, rfl⟩
  | succ bound =>
    unfold statements Fails
    rw [bind_standsAt, if_neg (by simp [heof]), bind_standsAt,
      if_neg (by simp [heof, hclose.symm]), bind_standsAt, if_pos (by simp [heof])]
    exact ⟨_, _, rfl⟩

/-- A statement and what comes after it. -/
theorem bind_statement {β : Type} (close : TokenKind) (f : Stmt Span → Parse β) :
    (statement down close >>= f) s =
      (statementContent down >>= fun x => terminator close >>= fun _ => f x)
        { s with events := s.events.push (.statement s.current.kind) } := by
  unfold statement
  simp only [bind_atStatement, bind_assoc, pure_bind, bind_currentKind, bind_record]

/-- A list of statements in a block, or in two sources that end together. The induction is on the
bound of the loop. If the first source ends behind a statement, then the list is not closed. -/
theorem agree_statements (hdown : down.Agrees K) (close : TokenKind)
    (hclose : close ≠ .eof ∨ K.sequel = none) (bound : Nat) (h : s.Meets K s')
    (hfollows : s.current.kind = close → s.Follows K s') :
    Agree K (K.Alike fun f => List.map (Stmt.mapMark f)) (statements down close bound s)
      (statements down close bound s') := by
  have hopen {q : Sequel} (hq : K.sequel = some q) : close ≠ .eof := by
    obtain hclose | hnone := hclose
    · exact hclose
    · rw [hnone] at hq
      cases hq
  induction bound generalizing s s' with
  | zero => exact .lost (.inl rfl)
  | succ bound ih =>
    obtain ⟨ht, -⟩ | ⟨heof, q, hq, -⟩ := h.cases_kind
    · unfold statements
      rw [bind_standsAt, bind_standsAt, K.kind ht]
      split
      · next hsemicolon =>
        refine (agree_advance_kind h (of_decide_eq_true hsemicolon) (by decide)).bind
          fun t t' u u' _ hu => ?_
        exact ih hu.toMeets fun _ => hu
      · rw [bind_standsAt, bind_standsAt, K.kind ht]
        split
        · next hstands => exact .ok rfl (hfollows (of_decide_eq_true hstands))
        · rw [bind_standsAt, bind_standsAt, K.kind ht]
          split
          · exact agree_unexpected _ h
          · rw [bind_statement, bind_statement]
            have hend (hsome : K.sequel.isSome = true) (x : Stmt Span) {t : ParseState}
                (heof : t.current.kind = .eof) : Fails (terminator close >>= fun _ =>
                  statements down close bound >>= fun rest => pure (x :: rest)) t := by
              obtain ⟨q, hq⟩ := Option.isSome_iff_exists.mp hsome
              unfold Fails
              rw [bind_of_ok (terminator_of_eof close heof)]
              exact (fails_statements (hopen hq) bound heof).bind
            refine (agree_statementContent hdown (meets_of_record _ _ h)).bind
              (fun x x' u u' hx hu => ?_) fun hsome x t heof => hend hsome x heof
            obtain ⟨hut, -⟩ | ⟨heof, q, hq, -⟩ := hu.cases_kind
            · refine (agree_terminator close hu hut).bind fun _ _ v v' _ hv => ?_
              refine (ih hv.toMeets fun _ => hv).bind fun xs xs' w w' hxs hw => ?_
              refine .ok ?_ hw
              simp only [Correspondence.Alike, List.map_cons, K.statement hx, K.statements hxs]
            · exact .of_fails hq (hend (by rw [hq]; rfl) x heof)
    · exact .of_fails hq (fails_statements (hopen hq) _ heof)

theorem agree_blockBody (hdown : down.Agrees K) (h : s.Meets K s') :
    Agree K (K.Alike fun f => List.map (Stmt.mapMark f)) (blockBody down s)
      (blockBody down s') := by
  refine (agree_expect h (by decide)).bind fun o o' u u' _ hu => ?_
  rw [bind_enterBlock, bind_enterBlock]
  have henter : ParseState.Follows K { u with groupDepth := 0 } { u' with groupDepth := 0 } :=
    hu.congr rfl rfl rfl rfl rfl rfl (.inr rfl) hu.inReturnType
  have hstatements := agree_statements hdown .closeCurly (.inl (by decide)) down.bound
    henter.toMeets fun _ => henter
  refine (agree_exitBlock hu.groupDepth hstatements).bind fun body body' v v' hbody hv => ?_
  refine (agree_expect hv.toMeets (by decide)).bind fun k k' w w' _ hw => ?_
  rw [bind_record, bind_record]
  exact .ok hbody (hw.congr rfl rfl rfl rfl rfl rfl hw.groupDepth hw.inReturnType)

end Statements

/-! ## Functions, blocks and conditionals -/

section Branches

variable (hdown : down.Agrees K)

include hdown

theorem agree_functionBody (hcolon : K.Colonless) (typed : Bool) (h : s.Meets K s') :
    Agree K (K.Alike Body.mapMark) (functionBody down typed s) (functionBody down typed s') := by
  unfold functionBody
  rw [bind_currentKind, bind_currentKind]
  obtain ⟨ht, -⟩ | ⟨heof, q, hq, -⟩ := h.cases_kind
  · rw [K.kind ht]
    cases hkind : s.current.kind
    case arrow =>
      refine (agree_advance_kind h hkind (by decide)).bind fun t t' u u' _ hu => ?_
      refine (hdown.branch hcolon hu.toMeets).map fun e e' he => ?_
      simp only [Correspondence.Alike, Body.mapMark, K.trees he]
    case openCurly =>
      refine (agree_blockBody hdown h).map fun body body' hbody => ?_
      simp only [Correspondence.Alike, Body.mapMark_block, K.statements hbody]
    all_goals exact agree_unexpected _ h
  · rw [heof]
    exact .of_fails hq ⟨_, _, rfl⟩

omit hdown in
theorem agree_functionName (h : s.Follows K s') :
    Agree K (fun name name' => name' = name) (functionName s) (functionName s') := by
  have hnamed := h.decides (fun kind => decide (kind = .identifier)) (by decide)
  unfold functionName
  rw [bind_standsAt, bind_standsAt, hnamed]
  split
  · next hkind =>
    refine (agree_advance_kind h.toMeets (of_decide_eq_true hkind) (by decide)).bind
      fun t t' u u' ht hu => ?_
    exact .ok (by rw [K.value ht]) hu
  · exact .ok rfl h

theorem agree_function (hcolon : K.Colonless) (h : s.Meets K s') :
    Agree K (K.Alike Expr.mapMark) (function down s) (function down s') := by
  unfold function
  rw [bind_currentKind, bind_currentKind, bind_record, bind_record]
  refine (agree_expect (meets_of_record _ _ h) (by decide)).bind fun k k' u u' hk hu => ?_
  refine (agree_functionName hu).bind fun name name' v v' hname hv => ?_
  refine (agree_expectOr _ hv.toMeets (by decide)).bind fun o o' w w' _ hw => ?_
  refine (agree_delimited (agree_parameter hdown hcolon) fails_parameter (by decide) _ hw).bind
    fun list list' x x' hlist hx => ?_
  rw [bind_setInReturnType, bind_setInReturnType, hx.inReturnType]
  have hxt : ParseState.Follows K { x with inReturnType := true }
      { x' with inReturnType := true } :=
    hx.congr rfl rfl rfl rfl rfl rfl hx.groupDepth rfl
  refine (agree_typeAfterColon hdown hcolon hxt).bind fun type type' y y' htype hy => ?_
  rw [bind_setInReturnType, bind_setInReturnType]
  have hyb : ParseState.Follows K { y with inReturnType := false }
      { y' with inReturnType := false } :=
    hy.congr rfl rfl rfl rfl rfl rfl hy.groupDepth rfl
  have htyped : type'.isSome = type.isSome := by
    rw [← Option.isSome_map (f := Expr.mapMark K.new), K.optional htype, Option.isSome_map]
  rw [htyped]
  refine (agree_functionBody hdown hcolon _ hyb.toMeets).bind fun body body' z z' hbody hz => ?_
  rw [bind_setInReturnType, bind_setInReturnType]
  have hzr : ParseState.Follows K { z with inReturnType := x.inReturnType }
      { z' with inReturnType := x.inReturnType } :=
    hz.congr rfl rfl rfl rfl rfl rfl hz.groupDepth rfl
  refine .ok ?_ hzr
  simp only [Correspondence.Alike, Expr.mapMark_function, hname, hlist.elements,
    K.optional htype, K.functionBody hbody, hzr.spanFrom (K.start hk)]

theorem agree_block (kind : BlockKind) (h : s.Meets K s') :
    Agree K (K.Alike Expr.mapMark) (block down kind s) (block down kind s') := by
  unfold block
  rw [bind_record, bind_record]
  refine (agree_expect (meets_of_record _ _ h) (by decide)).bind fun k k' u u' hk hu => ?_
  refine (agree_blockBody hdown hu.toMeets).bind fun body body' v v' hbody hv => ?_
  refine .ok ?_ hv
  simp only [Correspondence.Alike, Expr.mapMark_block, K.statements hbody,
    hv.spanFrom (K.start hk)]

omit hdown in
theorem agree_skipThen (h : s.Follows K s') :
    Agree K (fun _ _ => True) (skipThen s) (skipThen s') := by
  unfold skipThen
  rw [bind_current, bind_current, h.isKeyword]
  split
  · next hword =>
    have hkind := Token.kind_of_keyword? (Token.isKeyword_iff.mp hword)
    refine (agree_advance_kind h.toMeets hkind (by decide)).bind fun t t' u u' _ hu => ?_
    exact .ok trivial hu
  · exact .ok trivial h

theorem agree_elseBranch (hcolon : K.Colonless) (valueRequired : Bool) {t t' : Token}
    (ht : K.token t t') (h : s.Follows K s') :
    Agree K (K.Alike fun f => Option.map (Expr.mapMark f))
      (elseBranch down valueRequired t.span.start s)
      (elseBranch down valueRequired t'.span.start s') := by
  unfold elseBranch
  rw [bind_current, bind_current, h.isKeyword]
  split
  · next hword =>
    have hkind := Token.kind_of_keyword? (Token.isKeyword_iff.mp hword)
    refine (agree_advance_kind h.toMeets hkind (by decide)).bind fun _ _ u u' _ hu => ?_
    refine (hdown.branch hcolon hu.toMeets).bind fun e e' v v' he hv => ?_
    exact .ok (congrArg some he) hv
  · split
    · exact agree_fail (K.located _ ht)
    · exact .ok rfl h

theorem agree_conditional (hcolon : K.Colonless) (valueRequired : Bool) (h : s.Meets K s')
    (hne : s.current.kind ≠ .eof) :
    Agree K (K.Alike Expr.mapMark) (conditional down valueRequired s)
      (conditional down valueRequired s') := by
  unfold conditional
  rw [bind_record, bind_record]
  refine (agree_advance (meets_of_record _ _ h) hne).bind fun k k' u u' hk hu => ?_
  refine (hdown.expr hu.toMeets).bind fun c c' v v' hc hv => ?_
  refine (agree_skipThen hv).bind fun _ _ w w' _ hw => ?_
  refine (hdown.branch hcolon hw.toMeets).bind fun b b' x x' hb hx => ?_
  refine (agree_elseBranch hdown hcolon valueRequired hk hx).bind fun o o' y y' ho hy => ?_
  refine .ok ?_ hy
  simp only [Correspondence.Alike, Expr.mapMark_conditional, K.trees hc, K.trees hb,
    K.optional ho, hy.spanFrom (K.start hk)]

omit hdown in
/-- The question whether a curly bracket belongs to a word has the same answer on both sides. -/
theorem agree_opensCurly {β γ : Type} {P : β → γ → Prop} {f : Bool → Parse β}
    {f' : Bool → Parse γ} (h : s.Meets K s') (hne : s.current.kind ≠ .eof)
    (hf : ∀ b u u', u.Meets K u' → Agree K P (f b u) (f' b u')) :
    Agree K P ((opensCurly >>= f) s) ((opensCurly >>= f') s') := by
  unfold opensCurly
  rw [bind_assoc, bind_assoc, bind_get, bind_get, h.inReturnType]
  split
  · exact hf false s s' h
  · rw [bind_assoc, bind_assoc]
    refine agree_peek (fun t => decide (t.kind = .openCurly)) h hne
      (fun t t' ht _ => by rw [K.kind ht]) (fun t t' ht ht' => ?_) fun t t' u u' hview hu _ => ?_
    · dsimp only
      rw [ht]
      generalize t'.kind = kind at ht' ⊢
      revert kind
      decide
    · have hopens : decide (t'.kind = .openCurly) = decide (t.kind = .openCurly) := hview
      rw [pure_bind, pure_bind, hopens]
      exact hf _ u u' hu

omit hdown in
/-- A word that opens a block, a set or a map, or is a plain label. -/
theorem agree_opener {production : Parse (Expr Span)}
    (hproduction : ∀ {u u' : ParseState}, u.Meets K u' →
      Agree K (K.Alike Expr.mapMark) (production u) (production u'))
    (h : s.Meets K s') (hne : s.current.kind ≠ .eof) :
    Agree K (K.Alike Expr.mapMark)
      ((do if ← opensCurly then production else plainLabel : Parse (Expr Span)) s)
      ((do if ← opensCurly then production else plainLabel : Parse (Expr Span)) s') := by
  refine agree_opensCurly h hne fun b u u' hu => ?_
  split
  · exact hproduction hu
  · exact agree_plainLabel hu

theorem agree_label (h : s.Meets K s') (hne : s.current.kind ≠ .eof) :
    Agree K (K.Alike Expr.mapMark) (label down s) (label down s') := by
  unfold label
  rw [bind_current, bind_current, K.keyword? (h.token hne)]
  cases hword : s.current.keyword? with
  | none => exact agree_plainLabel h
  | some keyword =>
    cases keyword with
    | «if» => exact agree_conditional hdown (K.colonless (h.token hne) (.inl hword)) true h hne
    | «then» | «else» => exact agree_unexpected _ h
    | fn => exact agree_function hdown (K.colonless (h.token hne) (.inr hword)) h
    | type => exact agree_plainLabel h
    | «do» => exact agree_opener (agree_block hdown .do) h hne
    | scope => exact agree_opener (agree_block hdown .scope) h hne
    | set => exact agree_opener (agree_set hdown) h hne
    | map => exact agree_opener (agree_mapping hdown) h hne
    | true => exact agree_boolean true h hne
    | false => exact agree_boolean false h hne

end Branches

/-! ## Declarations and updates -/

section Changes

variable (hdown : down.Agrees K)

include hdown

theorem agree_declaredType (h : s.Follows K s') :
    Agree K (K.Alike fun f => Option.map (Expr.mapMark f)) (declaredType down s)
      (declaredType down s') := by
  have hassigned := h.decides (fun kind => decide (kind = .assignment)) (by decide)
  unfold declaredType
  rw [bind_standsAt, bind_standsAt, hassigned]
  split
  · exact .ok rfl h
  · refine (hdown.expr h.toMeets).bind fun e e' u u' he hu => ?_
    exact .ok (congrArg some he) hu

theorem agree_declaration (h : s.Meets K s') :
    Agree K (K.Alike Expr.mapMark) (declaration down s) (declaration down s') := by
  unfold declaration
  rw [bind_current, bind_current, bind_record, bind_record]
  refine (agree_expect (meets_of_record _ _ h) (by decide)).bind fun label label' u u' hl hu => ?_
  refine (agree_expect hu.toMeets (by decide)).bind fun o o' v v' _ hv => ?_
  refine (agree_declaredType hdown hv).bind fun type type' w w' htype hw => ?_
  refine (agree_expect hw.toMeets (by decide)).bind fun a a' x x' _ hx => ?_
  refine (hdown.expr hx.toMeets).bind fun e e' y y' he hy => ?_
  refine .ok ?_ hy
  simp only [Correspondence.Alike, Expr.mapMark_declaration, K.value hl, K.optional htype,
    K.trees he, hy.spanFrom (K.start hl)]

theorem agree_update (h : s.Meets K s') :
    Agree K (K.Alike Expr.mapMark) (update down s) (update down s') := by
  unfold update
  rw [bind_current, bind_current, bind_record, bind_record]
  refine (agree_expect (meets_of_record _ _ h) (by decide)).bind fun label label' u u' hl hu => ?_
  rw [bind_currentKind, bind_currentKind, hu.decides Updater.ofKind? (by decide)]
  cases hupdater : Updater.ofKind? u.current.kind with
  | none => exact agree_unexpected _ hu.toMeets
  | some operator =>
    have hne : u.current.kind ≠ .eof := TokenKind.ne_of_some hupdater rfl
    refine (agree_advance hu.toMeets hne).bind fun o o' v v' _ hv => ?_
    refine (hdown.expr hv.toMeets).bind fun e e' w w' he hw => ?_
    refine .ok ?_ hw
    simp only [Correspondence.Alike, Expr.mapMark, K.value hl, K.trees he,
      hw.spanFrom (K.start hl)]

end Changes

/-! ## Calls, members, suffixes and operators -/

section Following

variable {base base' left left' : Expr Span}

theorem agree_call (hdown : down.Agrees K) (hbase : K.Alike Expr.mapMark base base')
    (h : s.Meets K s') :
    Agree K (K.Alike Expr.mapMark) (call down base s) (call down base' s') := by
  refine (agree_expect h (by decide)).bind fun o o' u u' _ hu => ?_
  refine (agree_exprs hdown (by decide) hu).bind fun list list' v v' hlist hv => ?_
  refine .ok ?_ hv
  simp only [Correspondence.Alike, Expr.mapMark_call, K.trees hbase, hlist.elements,
    K.extended hbase hlist.closing]

theorem agree_member (hbase : K.Alike Expr.mapMark base base') (h : s.Meets K s') :
    Agree K (K.Alike Expr.mapMark) (member base s) (member base' s') := by
  refine (agree_expect h (by decide)).bind fun o o' u u' _ hu => ?_
  refine (agree_expect hu.toMeets (by decide)).bind fun name name' v v' hname hv => ?_
  refine .ok ?_ hv
  simp only [Correspondence.Alike, Expr.mapMark, K.trees hbase, K.value hname,
    K.extended hbase hname]

theorem agree_suffix (hbase : K.Alike Expr.mapMark base base') (h : s.Meets K s') :
    Agree K (K.Alike Expr.mapMark) (suffix base s) (suffix base' s') := by
  unfold suffix
  rw [bind_currentKind, bind_currentKind, h.decides SuffixOperator.ofKind? (by decide)]
  cases hsymbol : SuffixOperator.ofKind? s.current.kind with
  | none => exact agree_unexpected _ h
  | some operator =>
    have hne : s.current.kind ≠ .eof := TokenKind.ne_of_some hsymbol rfl
    refine (agree_advance h hne).bind fun t t' u u' ht hu => ?_
    refine .ok ?_ hu
    simp only [Correspondence.Alike, Expr.mapMark, K.trees hbase,
      K.extended hbase ht]

theorem agree_afterPoint (hbase : K.Alike Expr.mapMark base base') (h : s.Meets K s')
    (hne : s.current.kind ≠ .eof) :
    Agree K (K.Alike Expr.mapMark) (afterPoint base s) (afterPoint base' s') := by
  refine agree_peek isField h hne (fun t t' ht hline => ?_) (fun t t' ht ht' => ?_)
    fun t t' u u' hview hu _ => ?_
  · simp only [isField, K.kind ht, K.isKeyword ht]
    by_cases heof : t.kind = .eof
    · simp [heof]
    · rw [hline heof]
  · have hnot : t'.kind ≠ .identifier := fun hkind => by
      rw [hkind] at ht'
      revert ht'
      decide
    simp [isField, ht, hnot]
  · rw [hview]
    split
    · exact agree_member hbase hu
    · exact agree_suffix hbase hu

/-- The kinds of tokens with which a call, a member or a suffix begins. -/
def chainStarts : List TokenKind := [.openParen, .dot, .dollar, .hash, .question]

/-- In front of any other token there is no call, member or suffix. -/
theorem suffixChain_of_chainStarts (down : Descent) (bound : Nat) (base : Expr Span)
    (h : chainStarts.contains s.current.kind = false) :
    suffixChain down (bound + 1) base s = .ok base s := by
  unfold suffixChain
  rw [bind_atLineBreak]
  split
  · rfl
  · rw [bind_currentKind]
    generalize s.current.kind = kind at h ⊢
    cases kind
    case openParen | dot | dollar | hash | question => cases h
    all_goals rfl

/-- The induction is on the bound of the loop. Where the first source ends, the chain ends in
both. -/
theorem agree_suffixChain (hdown : down.Agrees K) (bound : Nat)
    (hbase : K.Alike Expr.mapMark base base') (h : s.Follows K s') :
    Agree K (K.Alike Expr.mapMark) (suffixChain down bound base s)
      (suffixChain down bound base' s') := by
  induction bound generalizing base base' s s' with
  | zero => exact .lost (.inl rfl)
  | succ bound ih =>
    by_cases heof : s.current.kind = .eof
    · have hends := h.decides chainStarts.contains (by decide)
      rw [suffixChain_of_chainStarts down bound base (by rw [heof]; rfl),
        suffixChain_of_chainStarts down bound base' (by rw [hends, heof]; rfl)]
      exact .ok hbase h
    · unfold suffixChain
      rw [bind_atLineBreak, bind_atLineBreak, h.atLineBreak heof]
      split
      · exact .ok hbase h
      · rw [bind_currentKind, bind_currentKind, h.kind heof]
        cases s.current.kind
        case openParen =>
          exact (agree_call hdown hbase h.toMeets).bind fun _ _ _ _ he hu => ih he hu
        case dot =>
          exact (agree_afterPoint hbase h.toMeets heof).bind fun _ _ _ _ he hu => ih he hu
        case dollar | hash | question =>
          exact (agree_suffix hbase h.toMeets).bind fun _ _ _ _ he hu => ih he hu
        all_goals exact .ok hbase h

theorem agree_binary (hdown : down.Agrees K) (power : Power)
    (hleft : K.Alike Expr.mapMark left left') (h : s.Meets K s') (hne : s.current.kind ≠ .eof) :
    Agree K (K.Alike Expr.mapMark) (binary down left power s) (binary down left' power s') := by
  refine (agree_advance h hne).bind fun t t' u u' ht hu => ?_
  rw [K.kind ht, K.describe ht]
  cases BinaryOperator.ofKind? t.kind with
  | none => exact agree_fail (K.located _ ht)
  | some operator =>
    refine (hdown.expr hu.toMeets).bind fun right right' v v' hright hv => ?_
    refine .ok ?_ hv
    simp only [Correspondence.Alike, Expr.mapMark, K.trees hleft, K.trees hright,
      K.join_marks hleft hright]

/-- In front of any token but an operator there is no operator. -/
theorem operators_of_none (down : Descent) (power : Power) (bound : Nat) (left : Expr Span)
    (h : down.rules.operator? s.current.kind = none) :
    operators down power (bound + 1) left s = .ok left s := by
  unfold operators
  rw [bind_atLineBreak]
  split
  · rfl
  · rw [bind_currentKind, h]
    rfl

/-- The induction is on the bound of the loop. Where the first source ends, no operator follows in
either. -/
theorem agree_operators (hdown : down.Agrees K) (power : Power) (bound : Nat)
    (hleft : K.Alike Expr.mapMark left left') (h : s.Follows K s') :
    Agree K (K.Alike Expr.mapMark) (operators down power bound left s)
      (operators down power bound left' s') := by
  induction bound generalizing left left' s s' with
  | zero => exact .lost (.inl rfl)
  | succ bound ih =>
    by_cases heof : s.current.kind = .eof
    · have hends := h.decides Rules.standard.operator? (by decide)
      rw [operators_of_none down power bound left (by rw [hdown.sound.rules, heof]; rfl),
        operators_of_none down power bound left' (by rw [hdown.sound.rules, hends, heof]; rfl)]
      exact .ok hleft h
    · unfold operators
      rw [bind_atLineBreak, bind_atLineBreak, h.atLineBreak heof]
      split
      · exact .ok hleft h
      · rw [bind_currentKind, bind_currentKind, h.kind heof, hdown.sound.rules]
        cases hsymbol : BinaryOperator.ofKind? s.current.kind with
        | none =>
          simp only [Rules.standard, hsymbol]
          exact .ok hleft h
        | some operator =>
          simp only [Rules.standard, hsymbol, Option.map_some]
          split
          · exact .ok hleft h
          · refine (agree_binary hdown operator.level hleft h.toMeets heof).bind ?_
            exact fun e e' u u' he hu => ih he hu

end Following

/-! ## Whole expressions -/

section Whole

variable (hdown : down.Agrees K)

include hdown

theorem agree_primary {kind : TokenKind} {rule : PrimaryRule}
    (hrule : Rules.standardPrimary? kind = some rule) (h : s.Meets K s')
    (hne : s.current.kind ≠ .eof) :
    Agree K (K.Alike Expr.mapMark) (primary down rule s) (primary down rule s') := by
  cases kind <;> cases hrule
  case number | string | char => exact agree_literal h hne
  case identifier => exact agree_label hdown h hne
  case openParen => exact agree_tuple hdown h
  case openBracket => exact agree_array hdown h
  case openCurly => exact agree_object hdown h

theorem agree_expr (power : Power) (h : s.Meets K s') :
    Agree K (K.Alike Expr.mapMark) (expr down power s) (expr down power s') := by
  unfold expr
  rw [bind_currentKind, bind_currentKind, bind_record, bind_record, hdown.sound.rules,
    h.decides Rules.standard.primary? (by decide)]
  have hrecord := meets_of_record (.expr power s.current.kind) (.expr power s'.current.kind) h
  cases hrule : Rules.standardPrimary? s.current.kind with
  | none =>
    simp only [Rules.standard, hrule]
    exact agree_unexpected _ hrecord
  | some rule =>
    have hne : s.current.kind ≠ .eof := TokenKind.ne_of_some hrule rfl
    simp only [Rules.standard, hrule]
    refine (agree_primary hdown hrule hrecord hne).bind fun e e' u u' he hu => ?_
    refine (agree_suffixChain hdown down.bound he hu).bind fun f f' v v' hf hv => ?_
    exact agree_operators hdown power down.bound hf hv

theorem fails_expr (power : Power) (hrule : Rules.standardPrimary? s.current.kind = none) :
    Fails (expr down power) s := by
  unfold expr Fails
  have hnone : Rules.standard.primary? s.current.kind = none := hrule
  rw [bind_currentKind, bind_record, hdown.sound.rules, hnone]
  exact ⟨_, _, rfl⟩

theorem fails_statementExpr (valueRequired : Bool)
    (hrule : Rules.standardPrimary? s.current.kind = none) :
    Fails (statementExpr down valueRequired) s := by
  have hkind : s.current.kind ≠ .identifier := fun hkind => by
    rw [hkind] at hrule
    cases hrule
  unfold statementExpr Fails
  rw [bind_currentKind, bind_record, bind_standsAt, if_neg (by simpa using hkind)]
  exact fails_expr hdown .default hrule

omit hdown in
/-- An expression that begins with the last token of a source ends with it. -/
theorem eof_of_expr (hsound : down.Sound) {e : Expr Span} {t rest} {u : ParseState}
    (hs : s.Placed) (hread : s.upcoming.read = .ok (t, rest)) (heof : t.kind = .eof)
    (hne : s.current.kind ≠ .eof) (h : expr down .default s = .ok e u) :
    u.current.kind = .eof := by
  obtain ⟨w, hpass, hderives⟩ := finds_expr hsound .default hs h
  have hnil : s.upcoming.tokens = [] := by
    obtain ⟨ts, hts, -⟩ | ⟨hnil, -⟩ := TokenStream.ok_of_read hread
    · exact absurd heof (hs.upcoming t (hts ▸ List.mem_cons_self)).ne_eof
    · exact hnil
  have hlength := congrArg List.length hpass.ahead
  have hpos := hderives.length_pos rfl
  rw [ParseState.ahead_of_ne_eof hne, hnil, List.length_append, length_words,
    List.length_singleton] at hlength
  exact ParseState.ahead_eq_nil.mp (List.eq_nil_of_length_eq_zero (by omega))

/-- What stands in the place of a statement is decided by the token behind a label. -/
theorem agree_afterLabel (valueRequired : Bool) {t t' : Token}
    (hcolon : t'.kind = .colon ↔ t.kind = .colon) (hupdater : t'.kind.isUpdater = t.kind.isUpdater)
    (h : s.Meets K s') (hne : s.current.kind ≠ .eof) :
    Agree K (K.Alike Expr.mapMark)
      ((if t.kind = .colon then declaration down else if t.kind.isUpdater then update down
        else do
          if (← current).isKeyword .if then conditional down valueRequired
          else expr down .default : Parse (Expr Span)) s)
      ((if t'.kind = .colon then declaration down else if t'.kind.isUpdater then update down
        else do
          if (← current).isKeyword .if then conditional down valueRequired
          else expr down .default : Parse (Expr Span)) s') := by
  simp only [hcolon, hupdater]
  split
  · exact agree_declaration hdown h
  · split
    · exact agree_update hdown h
    · rw [bind_current, bind_current, h.isKeyword]
      split
      · next hword =>
        have hcolonless := K.colonless (h.token hne) (.inl (Token.isKeyword_iff.mp hword))
        exact agree_conditional hdown hcolonless valueRequired h hne
      · exact agree_expr hdown .default h

theorem agree_branch (hcolon : K.Colonless) (valueRequired : Bool) (h : s.Meets K s') :
    Agree K (K.Alike Expr.mapMark) (statementExpr down valueRequired s)
      (statementExpr down valueRequired s') := by
  unfold statementExpr
  rw [bind_currentKind, bind_currentKind, bind_record, bind_record, bind_standsAt, bind_standsAt]
  have hrecord :=
    meets_of_record (.statementExpr s.current.kind) (.statementExpr s'.current.kind) h
  dsimp only
  rw [h.decides (fun kind => decide (kind = .identifier)) (by decide)]
  split
  · next hkind =>
    have hne : s.current.kind ≠ .eof := of_decide_eq_true hkind ▸ by decide
    refine bind_peek hrecord hne (fun _ _ _ _ he => .error he)
      fun t t' u u' _ _ hfaces _ hu hcurrent _ => ?_
    refine agree_afterLabel hdown valueRequired ?_ (hfaces.decides _ (by decide)) hu
      (by rw [hcurrent]; exact hne)
    cases hfaces with
    | token ht _ _ => rw [K.kind ht]
    | stopped hq heof => simp [heof, hcolon _ hq]
  · exact agree_expr hdown .default hrecord

/-- If a label is the last token of the first source, then the first parse ends with it. -/
theorem agree_statementExpr (valueRequired : Bool) (h : s.Meets K s') :
    AgreeOrEnded K (K.Alike Expr.mapMark) (statementExpr down valueRequired s)
      (statementExpr down valueRequired s') := by
  unfold statementExpr
  rw [bind_currentKind, bind_currentKind, bind_record, bind_record, bind_standsAt, bind_standsAt]
  have hrecord :=
    meets_of_record (.statementExpr s.current.kind) (.statementExpr s'.current.kind) h
  dsimp only
  rw [h.decides (fun kind => decide (kind = .identifier)) (by decide)]
  split
  · next hkind =>
    have hne : s.current.kind ≠ .eof := of_decide_eq_true hkind ▸ by decide
    refine bind_peek hrecord hne (fun _ _ _ _ he => .inl (.error he))
      fun t t' u u' rest rest' hfaces _ hu hcurrent hread => ?_
    have hune : u.current.kind ≠ .eof := by rw [hcurrent]; exact hne
    have hupdater := hfaces.decides TokenKind.isUpdater (by decide)
    cases hfaces with
    | token ht _ _ =>
      exact .inl (agree_afterLabel hdown valueRequired (by rw [K.kind ht]) hupdater hu hune)
    | @stopped _ q hq heof =>
      by_cases hcolon : q.stop.kind = .colon
      · have hword : u.current.isKeyword .if = false :=
          ((K.admits (hu.token hune) hq).plain hcolon).1
        rw [if_neg (by simp [heof]), if_neg (by simp [heof, TokenKind.isUpdater]), bind_current,
          if_neg (by simp [hword])]
        cases hexpr : expr down .default u with
        | ok e v =>
          exact .inr ⟨by rw [hq]; rfl, e, v, rfl,
            eof_of_expr hdown.sound hu.placed hread heof hune hexpr⟩
        | error failure v => exact .inl (.lost (.inr (by rw [hq]; rfl)))
      · exact .inl (agree_afterLabel hdown valueRequired (by simp [heof, hcolon]) hupdater hu hune)
  · exact .inl (agree_expr hdown .default hrecord)

end Whole

end Parse

/-! ## All levels -/

/-- The calls a level below agree, at every number of levels. -/
theorem agrees_descent (K : Correspondence α) (elseRequired : Bool) (levels : Nat) :
    (descent .standard elseRequired levels).Agrees K := by
  induction levels with
  | zero =>
    exact ⟨sound_descent elseRequired 0, fun _ => .lost (.inl rfl), fun _ _ => .lost (.inl rfl),
      fun _ => .inl (.lost (.inl rfl)), fun _ => ⟨_, _, rfl⟩, fun _ _ _ => ⟨_, _, rfl⟩⟩
  | succ levels ih =>
    exact ⟨sound_descent elseRequired (levels + 1), fun h => Parse.agree_expr ih _ h,
      fun hcolon h => Parse.agree_branch ih hcolon _ h,
      fun h => Parse.agree_statementExpr ih _ h, fun hrule => Parse.fails_expr ih _ hrule,
      fun valueRequired _ hrule => Parse.fails_statementExpr ih valueRequired hrule⟩

/-- Two sources that end together, whose tokens correspond, give modules that differ in their spans
only, or errors that correspond. -/
theorem parse_of_streams {K : Correspondence α} {source source' : String} {settings : Settings}
    (hnone : K.sequel = none) (horigin : K.place ⟨0, settings.file⟩ ⟨0, settings.file⟩)
    (h : K.Streams (TokenStream.ofSource source settings.file)
      (TokenStream.ofSource source' settings.file)) :
    (∃ m m', parse source settings = .ok m ∧ parse source' settings = .ok m' ∧
      m'.body.map (Stmt.mapMark K.new) = m.body.map (Stmt.mapMark K.old)) ∨
    ∃ e e', parse source settings = .error (.error e) ∧
      parse source' settings = .error (.error e') ∧ K.error e e' := by
  obtain ⟨s, s', hs, hs', hmeets, hlast, hlast', hline⟩ | ⟨e, e', he, he', herror⟩ :=
    ParseState.Meets.exists_start h
  · have hfollows : s.Follows K s' := ⟨hmeets, by rw [hlast, hlast']; exact horigin, hline⟩
    obtain ⟨levels, hlevels, hlevels'⟩ : ∃ n, s.ahead.length < n ∧ s'.ahead.length < n :=
      ⟨s.ahead.length + s'.ahead.length + 1, by omega, by omega⟩
    have hbody := Parse.agree_statements (agrees_descent K settings.elseRequired levels)
      .eof (.inr hnone) levels hmeets fun _ => hfollows
    have hexhausted : parse source settings ≠ .error .exhausted := fun h => by
      obtain ⟨e, he⟩ := exists_error_of_parse h
      cases he
    rw [parse_of_levels hs hlevels] at hexhausted ⊢
    rw [parse_of_levels hs' hlevels']
    generalize Parse.statements (descent .standard settings.elseRequired levels) .eof levels s = r
      at hbody hexhausted ⊢
    generalize Parse.statements (descent .standard settings.elseRequired levels) .eof levels s' = r'
      at hbody ⊢
    cases hbody with
    | ok value _ => exact .inl ⟨_, _, rfl, rfl, value⟩
    | error error => exact .inr ⟨_, _, rfl, rfl, error⟩
    | lost lost =>
      obtain rfl | hsome := lost
      · exact absurd rfl hexhausted
      · rw [hnone] at hsome
        cases hsome
  · rw [parse_of_start_error he, parse_of_start_error he']
    exact .inr ⟨e, e', rfl, rfl, herror⟩

end SurfaceGrammar

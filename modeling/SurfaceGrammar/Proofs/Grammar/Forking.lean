import SurfaceGrammar.Proofs.Grammar.Fronts

/-!
# Productions at a fork

Every production goes the same way in two parses up to the token at which they part. There a
production either decides by the token, and what is chosen for a token passes it. Or it refuses the
token, and then each kind that the error lists is one of a token that would have been passed; the
one exception is the kind of a name behind the name of a function. So if an error of the first parse
lists the kind of the token that the second one has in its place, the second parse passes that one.

* `Fork.Halt`: what comes out of a list that ends before a token of a kind.
* `Descent.Keeps`: the calls a level below have results that belong together.
* `Fork.Keeps.descent`: they have at every number of levels.
* `Fork.halt_statements`: so has the list of the statements of a source.
-/

namespace SurfaceGrammar

/-- The calls a level below have results in both parses that belong together. -/
class Descent.Keeps (F : Fork) (down : Descent) : Prop extends
    Descent.Forward (.anywhere F.strict) down where
  keeps_expr : ∀ power, F.Keeps false (down.expr power)
  keeps_statementExpr : ∀ valueRequired, F.Keeps false (down.statementExpr valueRequired)
  starts_expr : ∀ {front : Front} {power : Power} {s : ParseState}, s.Faces front [] →
    Starts F.strict front (down.expr power s)
  starts_statementExpr : ∀ {front : Front} {valueRequired : Bool} {s : ParseState},
    s.Faces front [] → Starts F.strict front (down.statementExpr valueRequired s)

instance : Fact (TokenKind.identifier ≠ .eof ∧ TokenKind.identifier ≠ .dot) := ⟨by decide⟩

instance : Fact (TokenKind.openParen ≠ .eof ∧ TokenKind.openParen ≠ .dot) := ⟨by decide⟩

instance : Fact (TokenKind.closeParen ≠ .eof ∧ TokenKind.closeParen ≠ .dot) := ⟨by decide⟩

instance : Fact (TokenKind.openBracket ≠ .eof ∧ TokenKind.openBracket ≠ .dot) := ⟨by decide⟩

instance : Fact (TokenKind.closeBracket ≠ .eof ∧ TokenKind.closeBracket ≠ .dot) := ⟨by decide⟩

instance : Fact (TokenKind.openCurly ≠ .eof ∧ TokenKind.openCurly ≠ .dot) := ⟨by decide⟩

instance : Fact (TokenKind.closeCurly ≠ .eof ∧ TokenKind.closeCurly ≠ .dot) := ⟨by decide⟩

instance : Fact (TokenKind.assignment ≠ .eof ∧ TokenKind.assignment ≠ .dot) := ⟨by decide⟩

instance : Fact (TokenKind.colon ≠ .eof ∧ TokenKind.colon ≠ .dot) := ⟨by decide⟩

namespace Fork

open Parse

set_option synthInstance.maxSize 1024

variable {F : Fork} {down : Descent} {β γ : Type} {early : Bool} {v : List Token} {t : Token}
  {s s' : ParseState}

/-- The old parse begins an expression at its front, and the kind of the new token begins none. -/
theorem Outcome.of_starts_old {Q : List Token → β → Prop}
    {r r' : EStateM.Result Failure ParseState β} (hold : Starts F.strict F.old r)
    (hnew : F.new.token.kind ∉ expressionStart) : F.Outcome Q r r' := by
  cases hold with
  | clears clears => exact .cleared clears
  | refuses expected _ => exact .refused fun _ hlists => hnew (expected hlists.1)
  | exhausted => exact .lost

/-- Both parses begin an expression at their fronts. -/
theorem Outcome.of_starts {Q : List Token → β → Prop} {r r' : EStateM.Result Failure ParseState β}
    (hold : Starts F.strict F.old r) (hnew : Starts F.strict F.new r') : F.Outcome Q r r' := by
  cases hnew with
  | clears clears => exact .passed clears
  | refuses _ odd => exact .of_starts_old hold (odd F.plain)
  | exhausted => exact .exhausted

namespace Keeps

instance down_expr [hdown : down.Keeps F] {power : Power} : F.Keeps early (down.expr power) where
  outcome h _ := (hdown.keeps_expr power).outcome h nofun

instance down_statementExpr [hdown : down.Keeps F] {valueRequired : Bool} :
    F.Keeps early (down.statementExpr valueRequired) where
  outcome h _ := (hdown.keeps_statementExpr valueRequired).outcome h nofun

/-- In front of the fork there is a token that both parses stand at. -/
theorem of_current {m : Parse β}
    (hm : ∀ {t v} {s s' : ParseState}, F.Paired (t :: v) s s' → t.kind ≠ .dot → s.current = t →
      s'.current = t → F.Outcome Anything (m s) (m s')) : F.Keeps true m where
  outcome {v s s'} h hv := by
    obtain ⟨t, w, rfl, ht⟩ := hv rfl
    exact hm h ht h.current (h.current_eq.trans h.current)

/-! ### Literals and labels -/

instance literal : F.Keeps true literal := .of_current fun {t v s s'} h ht hs hs' => by
  unfold Parse.literal
  rw [bind_current, bind_current, hs, hs']
  cases t.kind
  case number =>
    dsimp only
    cases (Decimal.read? t.value.toList).filter Binary64.isFinite with
    | none => exact .fail rfl
    | some x => exact outcome_early h ht
  case string => exact outcome_early h ht
  case char =>
    dsimp only
    cases t.value.toList with
    | nil => exact outcome_early h ht
    | cons c _ => exact outcome_early h ht
  all_goals exact outcome_early h ht

instance boolean {value : Bool} : F.Keeps true (boolean value) := by
  unfold Parse.boolean
  infer_instance

instance plainLabel : F.Keeps early plainLabel := by
  unfold Parse.plainLabel
  infer_instance

end Keeps

/-! ## Lists that end before a token -/

/-- What comes out of a list that ends before a token: one of the parses may end it at its front,
where the other one does not. -/
inductive Halt (F : Fork) (stopOld stopNew : Prop) (Q : List Token → β → Prop)
    (r r' : EStateM.Result Failure ParseState β) : Prop
  | outcome (outcome : F.Outcome Q r r')
  | old {b : β} {s : ParseState} (result : r = .ok b s) (faces : s.Faces F.old []) (stop : stopOld)
  | new {b : β} {s' : ParseState} (result : r' = .ok b s') (faces : s'.Faces F.new [])
    (stop : stopNew)

namespace Halt

variable {stopOld stopNew : Prop} {Q : List Token → β → Prop} {Q' : List Token → γ → Prop}
  {m : Parse β} {f : β → Parse γ}

/-- A list that is made into something else. -/
theorem map {g : β → γ} (h : F.Halt stopOld stopNew Q (m s) (m s'))
    (hf : ∀ b t, f b t = .ok (g b) t) (hg : ∀ v b, Q v b → Q' v (g b)) :
    F.Halt stopOld stopNew Q' ((m >>= f) s) ((m >>= f) s') := by
  cases h with
  | outcome outcome =>
    have hforward (b : β) : Obeys (Forward (.anywhere F.strict)) (f b) := by
      have hpure : f b = Pure.pure (g b) := funext (hf b)
      rw [hpure]
      infer_instance
    refine .outcome (outcome.bind fun b v t t' hpair hb => ?_)
    rw [hf, hf]
    exact .both hpair (hg v b hb)
  | old result faces stop => exact .old ((bind_of_ok result).trans (hf _ _)) faces stop
  | new result faces stop => exact .new ((bind_of_ok result).trans (hf _ _)) faces stop

/-- A list after which a block is left. -/
theorem exitBlock (depth : Nat) (h : F.Halt stopOld stopNew Q (m s) (m s')) :
    F.Halt stopOld stopNew Q (andFinally m (Parse.exitBlock depth) s)
      (andFinally m (Parse.exitBlock depth) s') := by
  cases h with
  | outcome outcome => exact .outcome (outcome.exitBlock depth)
  | old result faces stop =>
    exact .old (exitBlock_of_ok depth result) (faces.congr rfl rfl) stop
  | new result faces stop =>
    exact .new (exitBlock_of_ok depth result) (faces.congr rfl rfl) stop

/-- A list with the token that ends it. -/
theorem close [∀ b, Obeys (Forward (.anywhere F.strict)) (f b)]
    (h : F.Halt stopOld stopNew Q (m s) (m s'))
    (hold : ∀ b t, t.Faces F.old [] → stopOld → Clears F.strict F.old (f b t))
    (hnew : ∀ b t, t.Faces F.new [] → stopNew → Clears F.strict F.new (f b t))
    (hf : ∀ b v t t', F.Paired v t t' → Q v b → F.Outcome Q' (f b t) (f b t')) :
    F.Outcome Q' ((m >>= f) s) ((m >>= f) s') := by
  cases h with
  | outcome outcome => exact outcome.bind hf
  | old result faces stop =>
    rw [bind_of_ok result]
    exact .cleared (hold _ _ faces stop)
  | new result faces stop =>
    rw [bind_of_ok (x := m) result]
    exact .passed (hnew _ _ faces stop)

end Halt

/-! ### Delimited elements -/

section Delimited

variable {close : TokenKind} {element : Parse β} [Obeys (Forward (.anywhere F.strict)) element]
  [F.Keeps false element]

/-- The induction is on the bound of the loop. Where the list ends at the fork, the new token is not
a comma. -/
theorem halt_elements (bound : Nat) (comma : Bool) (h : F.Paired v s s') :
    F.Halt (F.old.token.kind = close) (F.new.token.kind = close)
      (fun v _ => v = [] → F.new.token.kind ≠ .comma)
      (elements close element bound comma s) (elements close element bound comma s') := by
  induction bound generalizing v comma s s' with
  | zero => exact .outcome .exhausted
  | succ bound ih =>
    unfold elements
    rw [bind_standsAt, bind_standsAt]
    obtain ⟨rfl, hold⟩ | ⟨rfl, -, hnew⟩ | ⟨hv, hold, hnew⟩ | ⟨hold, hnew⟩ := h.kind_cases close
    · refine .old (b := ([], comma)) ?_ h.old (h.old.current_front ▸ hold)
      rw [if_pos (decide_eq_true hold)]
      rfl
    · refine .new (b := ([], comma)) ?_ h.new (h.new.current_front ▸ hnew)
      rw [if_pos (decide_eq_true hnew)]
      rfl
    · rw [if_pos (decide_eq_true hold), if_pos (decide_eq_true hnew)]
      exact .outcome (.both h fun hnil => absurd hnil hv)
    · rw [if_neg (by simpa using hold), if_neg (by simpa using hnew)]
      refine (outcome_keeps h).bind_cases inferInstance (fun _ _ => .outcome)
        fun first v u u' hu _ => ?_
      rw [bind_standsAt, bind_standsAt]
      refine hu.advance_cases .comma (by decide) decide_eq_true_iff decide_eq_true_iff
        (fun _ _ => .outcome) (fun t w y y' _ _ hy => ?_) fun _ hnew => .outcome (.both hu ?_)
      · exact (ih true hy).map (g := fun xs => (first :: xs.1, xs.2)) (fun _ _ => rfl)
          fun _ _ => id
      · rintro rfl
        rwa [← hu.new.current_front]

/-- The elements between delimiters, after the opening one. -/
instance Keeps.delimited {bound : Nat} [hclose : Fact (close ≠ .eof ∧ close ≠ .dot)] :
    F.Keeps early (delimited bound close element) where
  outcome {v s s'} h _ := by
    unfold Parse.delimited Parse.watchedDelimited
    simp only [Watch.atExit_idle, pure_bind]
    rw [bind_enterGroup, bind_enterGroup, bind_setInReturnType, bind_setInReturnType,
      h.inReturnType, h.groupDepth]
    refine (halt_elements bound false (h.inContext (s.groupDepth + 1) false)).close
      (fun xs t ht hstop => ?_) (fun xs t ht hstop => ?_) fun xs v t t' ht hcomma => ?_
    · dsimp only
      rw [bind_exitGroup, bind_setInReturnType]
      exact Clears.bind (Clears.expectOr (ht.congr rfl rfl) hstop hclose.out.1)
    · dsimp only
      rw [bind_exitGroup, bind_setInReturnType]
      exact Clears.bind (Clears.expectOr (ht.congr rfl rfl) hstop hclose.out.1)
    · dsimp only
      rw [bind_exitGroup, bind_exitGroup, bind_setInReturnType, bind_setInReturnType,
        ht.groupDepth]
      refine (outcome_expectOr hclose.out (ht.inContext (t.groupDepth - 1) s.inReturnType)
        fun hv hne hlists => ?_).bind fun closing v u u' hu _ => .both hu trivial
      obtain hkind | hkind : F.new.token.kind = .comma ∨ F.new.token.kind = close := by
        simpa using hlists.1
      · exact hcomma hv hkind
      · exact hne hkind

end Delimited

/-! ## Composite expressions -/

namespace Keeps

section Composite

variable [down.Keeps F]

instance tuple : F.Keeps true (tuple down) := by
  have hgrouped := Obeys.grouped (A := Forward (.anywhere F.strict))
  unfold Parse.tuple
  have hkeeps (start : Position) (list : Delimited (Expr Span)) :
      F.Keeps false (match list.elements, list.trailingComma with
        | [inner], false => Pure.pure inner
        | elements, _ =>
          Pure.pure (.sequence .tuple elements ⟨start, list.closing.span.stop⟩) :
        Parse (Expr Span)) := by
    split <;> infer_instance
  infer_instance

instance array : F.Keeps true (array down) := by
  unfold Parse.array
  infer_instance

instance set : F.Keeps true (set down) := by
  unfold Parse.set
  infer_instance

instance entry : F.Keeps early (entry down) := by
  unfold Parse.entry
  infer_instance

instance mapping : F.Keeps true (mapping down) := by
  unfold Parse.mapping
  infer_instance

instance field : F.Keeps early (field down) := by
  unfold Parse.field
  infer_instance

instance object : F.Keeps true (object down) := by
  unfold Parse.object
  infer_instance

end Composite

end Keeps

/-! ## Types of parameters and functions -/

section Down

variable [hdown : down.Keeps F]

/-- Where no type is read at the fork, the new token is not a colon. -/
theorem outcome_typeAfterColon (h : F.Paired v s s') :
    F.Outcome (fun v type => v = [] → type = none → F.new.token.kind ≠ .colon)
      (typeAfterColon down s) (typeAfterColon down s') := by
  unfold typeAfterColon
  rw [bind_standsAt, bind_standsAt]
  refine h.advance_cases .colon (by decide) decide_eq_true_iff decide_eq_true_iff
    (fun _ _ => id) (fun t w u u' _ _ hu => ?_) fun _ hnew => .both h ?_
  · exact (outcome_keeps hu).bind fun type v y y' hy _ => .both hy nofun
  · rintro rfl -
    rwa [← h.new.current_front]

instance Keeps.typeAfterColon : F.Keeps early (typeAfterColon down) where
  outcome h _ := (outcome_typeAfterColon h).mono fun _ _ _ => trivial

instance Keeps.parameter : F.Keeps early (parameter down) := by
  unfold Parse.parameter
  infer_instance

/-! ## Statements and blocks -/

instance Keeps.typeDefinition : F.Keeps true (typeDefinition down) := by
  unfold Parse.typeDefinition
  infer_instance

instance Keeps.statementContent : F.Keeps false (statementContent down) where
  outcome {v s s'} h _ := by
    cases v with
    | nil =>
      exact .of_starts (starts_statementContent (fun _ => hdown.starts_statementExpr) h.old)
        (starts_statementContent (fun _ => hdown.starts_statementExpr) h.new)
    | cons t v =>
      unfold Parse.statementContent beginsTypeDefinition
      rw [bind_assoc, bind_current, bind_current, h.current_eq, h.current]
      split
      · next hword =>
        rw [bind_assoc]
        refine outcome_peek h (Token.ne_dot_of_isKeyword hword) fun u u' hu => ?_
        rw [pure_bind, pure_bind]
        refine outcome_choice (fun hold => ?_) (fun hnew => ?_) (outcome_keeps hu)
        · exact clears_typeDefinition_early hu.old (by simp_all)
        · exact clears_typeDefinition_early hu.new (by simp_all)
      · rw [pure_bind, if_neg Bool.false_ne_true]
        exact outcome_keeps h

/-- The end of a statement at the fork: the old parse may go on to a list that ends there, or to the
end of its tokens. -/
theorem halt_terminator (close : TokenKind) (h : F.Paired v s s') :
    F.Halt (F.old.token.kind = close ∨ F.old.token.kind = .eof ∧ F.new.token.kind ≠ close)
      (F.new.token.kind = close) Anything (terminator close s) (terminator close s') := by
  unfold terminator
  rw [bind_current, bind_current]
  refine h.advance_cases .semicolon (by decide) Iff.rfl Iff.rfl (fun _ _ => .outcome)
    (fun t w u u' _ _ hu => .outcome (.both hu trivial)) fun hold hnew => ?_
  rw [h.newlineBefore]
  by_cases hline : s.current.newlineBefore = true
  · rw [if_pos (.inr (.inr hline)), if_pos (.inr (.inr hline))]
    exact .outcome (.both h trivial)
  obtain ⟨rfl, hclose⟩ | ⟨rfl, -, hclose⟩ | ⟨hv, hclose, hclose'⟩ | ⟨hclose, hclose'⟩ :=
    h.kind_cases close
  · rw [if_pos (.inl hclose)]
    exact .old rfl h.old (.inl (h.old.current_front ▸ hclose))
  · rw [if_pos (Or.inl hclose : s'.current.kind = close ∨ _)]
    exact .new rfl h.new (h.new.current_front ▸ hclose)
  · rw [if_pos (.inl hclose), if_pos (.inl hclose')]
    exact .outcome (.both h trivial)
  · have hunlisted (hv : v = []) : ¬F.Lists [.semicolon, close] := by
      subst hv
      rw [h.new.current_front] at hnew hclose'
      exact fun hlists => by simpa [hnew, hclose'] using hlists.1
    by_cases heof : s.current.kind = .eof
    · obtain rfl := h.old.eq_nil_of_eof heof
      rw [if_pos (.inr (.inl heof))]
      rw [h.old.current_front] at heof
      rw [h.new.current_front] at hclose'
      exact .old rfl h.old (.inr ⟨heof, hclose'⟩)
    · rw [if_neg (by simp [hclose, heof, hline])]
      cases v with
      | nil => exact .outcome (.unexpected (hunlisted rfl))
      | cons t v => exact .outcome (.unexpected_early h.old (List.cons_ne_nil t v))

variable (down) in
theorem halt_statement (close : TokenKind) (h : F.Paired v s s') :
    F.Halt (F.old.token.kind = close ∨ F.old.token.kind = .eof ∧ F.new.token.kind ≠ close)
      (F.new.token.kind = close) Anything (statement down close s) (statement down close s') := by
  unfold statement
  rw [bind_atStatement, bind_atStatement, bind_currentKind, bind_currentKind, bind_record,
    bind_record]
  have hrecord : F.Paired v
      { s with events := s.events.push (.statement s.current.kind) }
      { s' with events := s'.events.push (.statement s'.current.kind) } :=
    h.congr rfl rfl rfl rfl h.lastEnd h.groupDepth h.inReturnType
  refine (outcome_keeps hrecord).bind_cases inferInstance (fun _ _ => .outcome)
    fun content v u u' hu _ => ?_
  exact (halt_terminator close hu).map (fun _ _ => rfl) fun _ _ => id

omit hdown in
/-- A list that stands at its end. -/
theorem statements_of_close (down : Descent) {close : TokenKind} (hclose : close ≠ .semicolon)
    (hkind : s.current.kind = close) (bound : Nat) :
    statements down close (bound + 1) s = .ok [] s := by
  unfold statements
  rw [bind_standsAt, if_neg (by simpa [hkind] using hclose), bind_standsAt,
    if_pos (decide_eq_true hkind)]
  rfl

omit hdown in
/-- A list that the end of the tokens cuts off. -/
theorem statements_of_eof (down : Descent) {close : TokenKind} (hclose : s.current.kind ≠ close)
    (hkind : s.current.kind = .eof) (bound : Nat) :
    statements down close (bound + 1) s = unexpected [close] s := by
  unfold statements
  rw [bind_standsAt, if_neg (by simp [hkind]), bind_standsAt, if_neg (by simpa using hclose),
    bind_standsAt, if_pos (decide_eq_true hkind)]

/-- A statement and those after it. Where one of the parses has ended the statement at its front,
it ends the list there as well, or refuses the end of the tokens. -/
theorem Halt.statements {close : TokenKind} (hclose : close ≠ .semicolon) (bound : Nat)
    {first : Parse (Stmt Span)}
    (h : F.Halt (F.old.token.kind = close ∨ F.old.token.kind = .eof ∧ F.new.token.kind ≠ close)
      (F.new.token.kind = close) Anything (first s) (first s'))
    (hrest : ∀ v u u', F.Paired v u u' →
      F.Halt (F.old.token.kind = close) (F.new.token.kind = close) Anything
        (statements down close bound u) (statements down close bound u')) :
    F.Halt (F.old.token.kind = close) (F.new.token.kind = close) Anything
      ((do return (← first) :: (← statements down close bound)) s)
      ((do return (← first) :: (← statements down close bound)) s') := by
  cases h with
  | outcome outcome =>
    refine outcome.bind_cases inferInstance (fun _ _ => .outcome) fun stmt v u u' hu _ => ?_
    exact (hrest v u u' hu).map (g := fun rest => stmt :: rest) (fun _ _ => rfl) fun _ _ => id
  | new result faces stop =>
    rw [bind_of_ok (x := first) (s := s') result]
    cases bound with
    | zero => exact .outcome .exhausted
    | succ bound =>
      have hends := statements_of_close down hclose (faces.current_front ▸ stop) bound
      exact .new ((bind_of_ok hends).trans rfl) faces stop
  | old result faces stop =>
    rw [bind_of_ok result]
    have hcurrent := faces.current_front
    cases bound with
    | zero => exact .outcome .lost
    | succ bound =>
      by_cases hstop : F.old.token.kind = close
      · have hends := statements_of_close down hclose (hcurrent ▸ hstop) bound
        exact .old ((bind_of_ok hends).trans rfl) faces hstop
      · obtain ⟨heof, hnot⟩ := stop.resolve_left hstop
        have hcut := statements_of_eof down (hcurrent ▸ hstop) (hcurrent ▸ heof) bound
        rw [bind_of_error hcut]
        refine .outcome (.refused fun _ hlists => hnot ?_)
        rw [Outcome.kind_unexpected] at hlists
        exact List.mem_singleton.mp hlists.1

variable (down) in
/-- The induction is on the bound of the loop. -/
theorem halt_statements {close : TokenKind} (hclose : close ≠ .semicolon) (bound : Nat)
    (h : F.Paired v s s') :
    F.Halt (F.old.token.kind = close) (F.new.token.kind = close) Anything
      (statements down close bound s) (statements down close bound s') := by
  induction bound generalizing v s s' with
  | zero => exact .outcome .exhausted
  | succ bound ih =>
    unfold statements
    rw [bind_standsAt, bind_standsAt]
    refine h.advance_cases .semicolon (by decide) decide_eq_true_iff decide_eq_true_iff
      (fun _ _ => .outcome) (fun t w u u' _ _ hu => ih hu) fun hold hnew => ?_
    rw [bind_standsAt, bind_standsAt]
    obtain ⟨rfl, hold⟩ | ⟨rfl, -, hnew⟩ | ⟨hv, hold, hnew⟩ | ⟨hold, hnew⟩ := h.kind_cases close
    · rw [if_pos (decide_eq_true hold)]
      exact .old rfl h.old (h.old.current_front ▸ hold)
    · rw [if_pos (decide_eq_true hnew)]
      exact .new rfl h.new (h.new.current_front ▸ hnew)
    · rw [if_pos (decide_eq_true hold), if_pos (decide_eq_true hnew)]
      exact .outcome (.both h trivial)
    rw [if_neg (by simpa using hold), if_neg (by simpa using hnew), bind_standsAt, bind_standsAt]
    obtain ⟨rfl, heof⟩ | ⟨rfl, hne, heof⟩ | ⟨hv, heof, -⟩ | ⟨heof, heof'⟩ := h.kind_cases .eof
    · rw [if_pos (decide_eq_true heof)]
      refine .outcome (.unexpected fun hlists => hnew ?_)
      rw [h.new.current_front]
      exact List.mem_singleton.mp hlists.1
    · rw [if_neg (by simpa using hne)]
      have hstarts := starts_statement close (fun _ => hdown.starts_statementExpr) h.old
      refine .outcome (.of_starts_old (starts_bind hstarts) ?_)
      rw [← h.new.current_front, heof]
      decide
    · exact absurd (h.old.eq_nil_of_eof heof) hv
    · rw [if_neg (by simpa using heof), if_neg (by simpa using heof')]
      exact (halt_statement down close h).statements hclose bound fun _ _ _ => ih

/-- The statements of a block and the bracket that closes it, after the opening one. -/
instance (priority := high) Keeps.closingBlock {bound depth : Nat}
    {f : List (Stmt Span) → Token → Parse β}
    [∀ body t, Obeys (Forward (.anywhere F.strict)) (f body t)]
    [∀ body t, F.Keeps false (f body t)] :
    F.Keeps early (do
      let body ← andFinally (statements down .closeCurly bound) (Parse.exitBlock depth)
      let closing ← Parse.expect .closeCurly
      f body closing) where
  outcome h _ := by
    have hbody := halt_statements down (by decide : TokenKind.closeCurly ≠ .semicolon) bound h
    refine (hbody.exitBlock depth).close (fun body t ht hstop => ?_) (fun body t ht hstop => ?_)
      fun body v t t' ht _ => outcome_keeps ht
    · exact Clears.bind (Clears.expectOr ht hstop (by decide))
    · exact Clears.bind (Clears.expectOr ht hstop (by decide))

instance Keeps.blockBody : F.Keeps early (blockBody down) := by
  unfold Parse.blockBody
  infer_instance

/-! ## Functions, blocks and conditionals -/

variable (down) in
/-- The body of a function. A colon is listed where no type was read, and no colon stands there. -/
theorem outcome_functionBody (type : Option (Expr Span)) (h : F.Paired v s s')
    (hcolon : v = [] → type = none → F.new.token.kind ≠ .colon) :
    F.Outcome Anything (functionBody down type.isSome s) (functionBody down type.isSome s') := by
  have hclears {front : Front} {u : ParseState} (hu : u.Faces front []) :
      (front.token.kind = .arrow ∨ front.token.kind = .openCurly) →
      Clears F.strict front (functionBody down type.isSome u) := by
    rintro (hkind | hkind)
    · unfold functionBody
      rw [bind_currentKind, hu.current_front, hkind]
      exact Clears.bind (Clears.advance hu (hkind ▸ by decide))
    · unfold functionBody
      rw [bind_currentKind, hu.current_front, hkind]
      exact Clears.map (clears_blockBody hu hkind)
  cases v with
  | nil =>
    by_cases hold : F.old.token.kind = .arrow ∨ F.old.token.kind = .openCurly
    · exact .cleared (hclears h.old hold)
    by_cases hnew : F.new.token.kind = .arrow ∨ F.new.token.kind = .openCurly
    · exact .passed (hclears h.new hnew)
    have hrefused : functionBody down type.isSome s = unexpected
        (if type.isSome then [.arrow, .openCurly] else [.colon, .arrow, .openCurly]) s := by
      unfold functionBody
      rw [bind_currentKind, h.old.current_front]
      cases hkind : F.old.token.kind
      case arrow => exact absurd (.inl hkind) hold
      case openCurly => exact absurd (.inr hkind) hold
      all_goals rfl
    rw [hrefused]
    refine .unexpected fun hlists => ?_
    cases type with
    | some type => exact hnew (by simpa using hlists.1)
    | none =>
      obtain hkind | hkind : F.new.token.kind = .colon ∨
          (F.new.token.kind = .arrow ∨ F.new.token.kind = .openCurly) := by
        simpa using hlists.1
      · exact hcolon rfl rfl hkind
      · exact hnew hkind
  | cons t v =>
    unfold functionBody
    rw [bind_currentKind, bind_currentKind, h.current_eq, h.current]
    cases hkind : t.kind
    case arrow | openCurly => exact outcome_early h (by rw [hkind]; decide)
    all_goals exact .unexpected_early h.old (List.cons_ne_nil t v)

/-- The return type and the body of a function. -/
instance (priority := high) Keeps.returnType {f : Option (Expr Span) → Body Span → Parse β}
    [∀ type body, Obeys (Forward (.anywhere F.strict)) (f type body)]
    [∀ type body, F.Keeps false (f type body)] :
    F.Keeps early (do
      let type ← Parse.typeAfterColon down
      let _ ← Parse.setInReturnType false
      let body ← Parse.functionBody down type.isSome
      f type body) where
  outcome h _ := by
    refine (outcome_typeAfterColon h).bind fun type v u u' hu hcolon => ?_
    rw [bind_setInReturnType, bind_setInReturnType]
    have hinner : F.Paired v { u with inReturnType := false } { u' with inReturnType := false } :=
      hu.congr rfl rfl rfl rfl hu.lastEnd hu.groupDepth rfl
    exact (outcome_functionBody down type hinner hcolon).bind fun body v w w' hw _ =>
      outcome_keeps hw

omit hdown in
/-- Where the name of a function was read or is absent at the fork, a name stands there only behind
another one. -/
theorem outcome_functionName {word : Token} (hword : word.isKeyword .fn = true)
    (hsuffix : word :: v <:+ F.before) (hapart : ¬F.AtField (word :: v)) (h : F.Paired v s s') :
    F.Outcome (fun v _ => v = [] → F.new.token.kind = .identifier →
      F.IsAfterName [.identifier, .openParen]) (functionName s) (functionName s') := by
  unfold functionName
  rw [bind_standsAt, bind_standsAt]
  refine h.advance_cases .identifier (by decide) decide_eq_true_iff decide_eq_true_iff
    (fun _ _ => id) (fun name w u u' hv hname hu => .both hu ?_) fun _ hnew => .both h ?_
  · rintro rfl hkind
    subst hv
    refine ⟨rfl, hkind, word, name, hsuffix, hword, hname, fun point hpoint hdot => ?_⟩
    refine Decidable.byContradiction fun hline => hapart ?_
    exact ⟨point, word, [name], rfl, hpoint, hdot, isField_of_isKeyword_fn hword hline⟩
  · rintro rfl hkind
    exact absurd (h.new.current_front ▸ hkind) hnew

/-- A function. Behind its name the kind of a name is listed, although no other one may follow. -/
theorem outcome_function (h : F.Paired (t :: v) s s') (ht : t.isKeyword .fn = true) :
    F.Outcome Anything (function down s) (function down s') := by
  have hkind := Token.kind_of_keyword? (Token.isKeyword_iff.mp ht)
  unfold function
  rw [bind_currentKind, bind_currentKind, h.current_eq, bind_record, bind_record]
  refine (h.record _).toBeside.expectOr_cases hkind fun u u' hbeside => ?_
  have hu : F.Paired v u u' := ⟨hbeside, h.not_atField (Token.ne_dot_of_isKeyword ht)⟩
  refine (outcome_functionName ht h.within h.apart hu).bind fun name w y y' hy hname => ?_
  refine (outcome_expectOr (by decide) hy fun hw hne hlists => ?_).bind
    fun _ _ _ _ hz _ => outcome_keeps hz
  obtain hkind | hkind : F.new.token.kind = .identifier ∨ F.new.token.kind = .openParen := by
    simpa using hlists.1
  · exact hlists.2 (hname hw hkind)
  · exact hne hkind

instance Keeps.block {kind : BlockKind} : F.Keeps true (block down kind) := by
  unfold Parse.block
  infer_instance

omit hdown in
/-- A word that is passed if the parse stands at it. The new token is no such word. -/
instance (priority := high) Keeps.word {keyword : Keyword} {f : Token → Parse β} {m : Parse β}
    [∀ t, Obeys (Forward (.anywhere F.strict)) (f t)] [∀ t, F.Keeps false (f t)] [F.Keeps false m] :
    F.Keeps early (do
      if (← Parse.current).isKeyword keyword then
        let t ← Parse.advance
        f t
      else
        m) where
  outcome {v s s'} h _ := by
    rw [bind_current, bind_current]
    cases v with
    | nil =>
      rw [h.old.current_front, h.new.current_front]
      have hnew : F.new.token.isKeyword keyword = false := by
        simp [Token.isKeyword, F.plain.keyword]
      rw [hnew]
      split
      · next hold =>
        have hne := Token.ne_eof_of_keyword? (Token.isKeyword_iff.mp hold)
        exact .cleared (Clears.bind (Clears.advance h.old hne))
      · exact outcome_keeps h
    | cons t v =>
      rw [h.current_eq, h.current]
      split
      · next hword => exact outcome_early h (Token.ne_dot_of_isKeyword hword)
      · exact outcome_keeps h

instance Keeps.skipThen : F.Keeps early skipThen := by
  unfold Parse.skipThen
  infer_instance

instance Keeps.elseBranch {valueRequired : Bool} {start : Position} :
    F.Keeps early (elseBranch down valueRequired start) := by
  have hfail : F.Keeps false (fail ⟨.missingElseBranch, start⟩ : Parse (Option (Expr Span))) :=
    ⟨fun _ _ => .fail rfl⟩
  unfold Parse.elseBranch
  infer_instance

instance Keeps.conditional {valueRequired : Bool} :
    F.Keeps true (conditional down valueRequired) := by
  unfold Parse.conditional
  infer_instance

omit hdown in
/-- A word and a bracket that belongs to it. If the bracket is the token of a front, it is passed
with the word. -/
theorem outcome_opensCurly {m m' : Parse β} [F.Keeps true m] [F.Keeps true m']
    (h : F.Paired (t :: v) s s') (ht : t.kind ≠ .dot)
    (hm : ∀ {front : Front} {u : ParseState}, u.Faces front [t] →
      front.token.kind = .openCurly → Clears F.strict front (m u)) :
    F.Outcome Anything ((opensCurly >>= fun b => if b then m else m') s)
      ((opensCurly >>= fun b => if b then m else m') s') := by
  unfold opensCurly
  rw [bind_assoc, bind_get, bind_get, h.inReturnType]
  split
  · rw [pure_bind]
    exact outcome_early h ht
  · rw [bind_assoc]
    refine outcome_peek h ht fun u u' hu => ?_
    rw [pure_bind, pure_bind]
    refine outcome_choice (fun hold => ?_) (fun hnew => ?_) (outcome_early hu ht)
    · exact hm hu.old (of_decide_eq_true hold)
    · exact hm hu.new (of_decide_eq_true hnew)

instance Keeps.label : F.Keeps true (label down) := .of_current fun {t v s s'} h ht hs hs' => by
  unfold Parse.label
  rw [bind_current, bind_current, hs, hs']
  cases hkeyword : t.keyword? with
  | none => exact outcome_early h ht
  | some keyword =>
    have hkind := Token.kind_of_keyword? hkeyword
    cases keyword
    case fn => exact outcome_function h (Token.isKeyword_iff.mpr hkeyword)
    case «do» | scope => exact outcome_opensCurly h ht fun hu => clears_block_early _ hu hkind
    case set => exact outcome_opensCurly h ht fun hu => clears_set_early hu hkind
    case map => exact outcome_opensCurly h ht fun hu => clears_mapping_early hu hkind
    all_goals exact outcome_early h ht

/-! ## Declarations and updates -/

/-- The type of a declaration and the sign after it. Where the sign stands at once at the fork, it
is passed in one parse, while the other one refuses no token of its kind. -/
instance (priority := high) Keeps.declaredType {f : Option (Expr Span) → Token → Parse β}
    [∀ type t, Obeys (Forward (.anywhere F.strict)) (f type t)]
    [∀ type t, F.Keeps false (f type t)] :
    F.Keeps early (do
      let type ← Parse.declaredType down
      let t ← Parse.expect .assignment
      f type t) where
  outcome {v s s'} h _ := by
    unfold Parse.declaredType
    rw [bind_assoc, bind_standsAt, bind_standsAt]
    obtain ⟨rfl, hold⟩ | ⟨rfl, hne, hnew⟩ | ⟨hv, hold, hnew⟩ | ⟨hold, hnew⟩ :=
      h.kind_cases .assignment
    · rw [if_pos (decide_eq_true hold), pure_bind]
      have hkind := h.old.current_front ▸ hold
      exact .cleared (Clears.bind (Clears.expectOr h.old hkind (by decide)))
    · rw [if_neg (by simpa using hne), bind_assoc]
      refine .of_starts_old (starts_bind (hdown.starts_expr h.old)) ?_
      rw [← h.new.current_front, hnew]
      decide
    · rw [if_pos (decide_eq_true hold), if_pos (decide_eq_true hnew), pure_bind]
      exact outcome_keeps h
    · rw [if_neg (by simpa using hold), if_neg (by simpa using hnew), bind_assoc]
      exact outcome_keeps h

instance Keeps.declaration : F.Keeps true (declaration down) := by
  unfold Parse.declaration
  infer_instance

omit hdown in
/-- The operators of updates are listed where none of them stands. -/
theorem not_mem_updaters {kind : TokenKind} (h : Updater.ofKind? kind = none) :
    kind ∉ [TokenKind.leftArrow, .plusEquals, .minusEquals, .starEquals, .slashEquals,
      .percentEquals, .caretEquals] := by
  cases kind
  case leftArrow | plusEquals | minusEquals | starEquals | slashEquals | percentEquals
    | caretEquals => cases h
  all_goals decide

instance Keeps.update : F.Keeps true (update down) where
  outcome {v s s'} h hv := by
    obtain ⟨t, v, rfl, ht⟩ := hv rfl
    unfold Parse.update
    rw [bind_current, bind_current, h.current_eq, bind_record, bind_record]
    refine (outcome_early (h.record _) ht).bind_cases (fun label => ⟨fun u hu => ?_⟩)
      (fun _ _ => id) fun label v u u' hu _ => ?_
    · rw [bind_currentKind]
      cases Updater.ofKind? u.current.kind with
      | none => exact .unexpected hu.toPlaced _
      | some operator => exact Forward.goes u hu
    · rw [bind_currentKind, bind_currentKind]
      cases v with
      | cons t v =>
        rw [hu.current_eq, hu.current]
        cases hoperator : Updater.ofKind? t.kind with
        | none => exact .unexpected_early hu.old (List.cons_ne_nil t v)
        | some operator => exact outcome_early hu (TokenKind.ne_of_some hoperator rfl)
      | nil =>
        rw [hu.old.current_front, hu.new.current_front]
        cases hold : Updater.ofKind? F.old.token.kind with
        | some operator =>
          have hne : F.old.token.kind ≠ .eof := TokenKind.ne_of_some hold rfl
          exact .cleared (Clears.bind (Clears.advance hu.old hne))
        | none =>
          cases hnew : Updater.ofKind? F.new.token.kind with
          | some operator =>
            have hne : F.new.token.kind ≠ .eof := TokenKind.ne_of_some hnew rfl
            exact .passed (Clears.bind (Clears.advance hu.new hne))
          | none => exact .unexpected fun hlists => not_mem_updaters hnew hlists.1

/-! ## What follows an expression -/

section Following

variable {base left : Expr Span}

instance Keeps.call : F.Keeps true (call down base) := by
  unfold Parse.call
  infer_instance

omit hdown in
/-- A suffix, behind which no field stands. -/
theorem outcome_suffix (h : F.Paired (t :: v) s s') (hapart : ¬F.AtField v) :
    F.Outcome Anything (suffix base s) (suffix base s') := by
  unfold suffix
  rw [bind_currentKind, bind_currentKind, h.current_eq]
  cases SuffixOperator.ofKind? s.current.kind with
  | none => exact .unexpected_early h.old (List.cons_ne_nil t v)
  | some operator =>
    obtain ⟨u, u', hu, hu', hpair⟩ := h.exists_advance hapart
    dsimp only
    rw [bind_of_ok hu, bind_of_ok hu']
    exact outcome_keeps hpair

omit hdown in
instance Keeps.suffix : F.Keeps true (suffix base) :=
  .of_current fun h ht _ _ => outcome_suffix h (h.not_atField ht)

omit hdown in
/-- A point and the field behind it are passed together. -/
theorem outcome_member {field : Token} (h : F.Paired (t :: field :: v) s s') (ht : t.kind = .dot)
    (hfield : field.kind = .identifier) :
    F.Outcome Anything (member base s) (member base s') := by
  refine h.toBeside.expectOr_cases ht fun u u' hu => hu.expectOr_cases hfield fun w w' hw => ?_
  have hpair : F.Paired v w w' := ⟨hw, not_atField_of_ne hu.within (by rw [hfield]; decide)⟩
  exact outcome_keeps hpair

omit hdown in
/-- Where both parses see the token behind a point, it is a field in both or in none. -/
theorem outcome_afterPoint (h : F.Paired (t :: v) s s') (ht : t.kind = .dot) :
    F.Outcome Anything (afterPoint base s) (afterPoint base s') := by
  obtain ⟨u, u', hu, hu', hpair⟩ := h.exists_peek
  unfold afterPoint
  rw [bind_of_ok hu, bind_of_ok hu']
  cases v with
  | nil =>
    have hapart : ¬F.AtField [] := by
      rintro ⟨point, field, w, hnil, -⟩
      cases hnil
    refine outcome_choice (fun hold => ?_) (fun hnew => ?_) (outcome_suffix hpair hapart)
    · exact clears_member_early hpair.old ht (kind_of_isField hold)
    · exact clears_member_early hpair.new ht (kind_of_isField hnew)
  | cons field v =>
    rw [List.headD_cons, List.headD_cons]
    split
    · next hfield => exact outcome_member hpair ht (kind_of_isField hfield)
    · next hfield =>
      refine outcome_suffix hpair ?_
      rintro ⟨point, _, w, hcons, -, -, hfield'⟩
      cases hcons
      exact hfield hfield'

/-- The induction is on the bound of the loop. -/
instance Keeps.suffixChain {bound : Nat} : F.Keeps early (suffixChain down bound base) := by
  induction bound generalizing early base with
  | zero => exact exhausted
  | succ bound ih =>
    refine ⟨fun {v s s'} h _ => ?_⟩
    cases v with
    | nil =>
      exact .of_optional h (optional_suffixChain bound h.old) (optional_suffixChain bound h.new)
        trivial
    | cons t v =>
      unfold Parse.suffixChain
      rw [bind_atLineBreak, bind_atLineBreak, h.atLineBreak]
      split
      · exact outcome_keeps h
      · rw [bind_currentKind, bind_currentKind, h.current_eq, h.current]
        cases hkind : t.kind
        case dot => exact (outcome_afterPoint h hkind).bind fun _ _ _ _ hu _ => outcome_keeps hu
        all_goals exact outcome_early h (by rw [hkind]; decide)

theorem outcome_binary {operator : BinaryOperator} (power : Power) (h : F.Paired (t :: v) s s')
    (hoperator : BinaryOperator.ofKind? t.kind = some operator) :
    F.Outcome Anything (binary down left power s) (binary down left power s') := by
  have ht : t.kind ≠ .dot := TokenKind.ne_of_some hoperator rfl
  obtain ⟨u, u', hu, hu', hpair⟩ := h.exists_advance (h.not_atField ht)
  unfold binary
  rw [bind_of_ok hu, bind_of_ok hu', hoperator]
  exact outcome_keeps hpair

/-- The induction is on the bound of the loop. -/
instance Keeps.operators {power : Power} {bound : Nat} :
    F.Keeps early (operators down power bound left) := by
  induction bound generalizing early left with
  | zero => exact exhausted
  | succ bound ih =>
    refine ⟨fun {v s s'} h _ => ?_⟩
    cases v with
    | nil =>
      exact .of_optional h (optional_operators power bound h.old)
        (optional_operators power bound h.new) trivial
    | cons t v =>
      unfold Parse.operators
      rw [bind_atLineBreak, bind_atLineBreak, h.atLineBreak]
      split
      · exact outcome_keeps h
      · rw [bind_currentKind, bind_currentKind, h.current_eq, h.current, hdown.rules]
        cases hoperator : BinaryOperator.ofKind? t.kind with
        | none =>
          simp only [Rules.standard, hoperator, Option.map_none]
          exact outcome_keeps h
        | some operator =>
          simp only [Rules.standard, hoperator, Option.map_some]
          split
          · exact outcome_keeps h
          · exact (outcome_binary operator.level h hoperator).bind fun _ _ _ _ hu _ =>
              outcome_keeps hu

end Following

/-! ## Whole expressions -/

theorem Keeps.primary {kind : TokenKind} {rule : PrimaryRule}
    (hrule : Rules.standardPrimary? kind = some rule) : F.Keeps true (primary down rule) := by
  cases kind <;> cases hrule <;> (unfold Parse.primary; infer_instance)

instance Keeps.expr {power : Power} : F.Keeps early (expr down power) where
  outcome {v s s'} h _ := by
    cases v with
    | nil => exact .of_starts (starts_expr power h.old) (starts_expr power h.new)
    | cons t v =>
      unfold Parse.expr
      rw [bind_currentKind, bind_currentKind, h.current_eq, bind_record, bind_record, hdown.rules]
      have hrecord := h.record (.expr power s.current.kind)
      cases hrule : Rules.standardPrimary? s.current.kind with
      | none =>
        simp only [Rules.standard, hrule]
        exact .unexpected_early hrecord.old (List.cons_ne_nil t v)
      | some rule =>
        simp only [Rules.standard, hrule]
        have hkeeps : F.Keeps true (Parse.primary down rule) := Keeps.primary hrule
        exact outcome_early hrecord (h.current ▸ TokenKind.ne_of_some hrule rfl)

instance Keeps.statementExpr {valueRequired : Bool} :
    F.Keeps early (statementExpr down valueRequired) where
  outcome {v s s'} h _ := by
    cases v with
    | nil =>
      exact .of_starts (starts_statementExpr valueRequired h.old)
        (starts_statementExpr valueRequired h.new)
    | cons t v =>
      unfold Parse.statementExpr
      rw [bind_currentKind, bind_currentKind, h.current_eq, bind_record, bind_record]
      have hrecord := h.record (.statementExpr s.current.kind)
      rw [bind_standsAt, bind_standsAt]
      by_cases hkind : t.kind = .identifier
      · rw [if_pos (by simpa [h.current] using hkind),
          if_pos (by simpa [h.current_eq, h.current] using hkind)]
        have ht : t.kind ≠ .dot := by rw [hkind]; decide
        refine outcome_peek hrecord ht fun u u' hu => ?_
        refine outcome_choice (clears_declaration_early hu.old hkind)
          (clears_declaration_early hu.new hkind) ?_
        exact outcome_choice (clears_update_early hu.old hkind)
          (clears_update_early hu.new hkind) (outcome_early hu ht)
      · rw [if_neg (by simpa [h.current] using hkind),
          if_neg (by simpa [h.current_eq, h.current] using hkind)]
        exact outcome_keeps hrecord

end Down

/-! ## All levels -/

/-- The calls a level below have results that belong together, at every number of levels. -/
instance Keeps.descent {elseRequired : Bool} [hstrict : Fact (elseRequired = true → F.strict)]
    {levels : Nat} : (descent .standard elseRequired levels).Keeps F := by
  have : Fact (elseRequired = true → (Course.anywhere F.strict).strict) := hstrict
  induction levels with
  | zero =>
    exact { toForward := Forward.descent
            keeps_expr := fun _ => exhausted
            keeps_statementExpr := fun _ => exhausted
            starts_expr := fun _ => .exhausted
            starts_statementExpr := fun _ => .exhausted }
  | succ levels ih =>
    exact { toForward := Forward.descent
            keeps_expr := fun _ => expr
            keeps_statementExpr := fun _ => statementExpr
            starts_expr := starts_expr _
            starts_statementExpr := starts_statementExpr _ }

end Fork

end SurfaceGrammar

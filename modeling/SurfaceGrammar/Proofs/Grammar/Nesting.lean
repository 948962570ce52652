import SurfaceGrammar.Proofs.Grammar.Context
import SurfaceGrammar.Proofs.Grammar.Clauses
import SurfaceGrammar.Proofs.Grammar.Sequels
import SurfaceGrammar.Proofs.Grammar.Soundness
import SurfaceGrammar.Proofs.Parse.Later

/-!
# Sources in blocks

A source that is parsed is parsed in a block, wherever the block stands: between delimiters inside
which line breaks mean nothing they mean something again in the block, and behind the block they
mean nothing again. The statements are those of the source, at later places.

* `Parse.consumes_source`: the statements of a source in front of a closing curly bracket.
* `BlockForm.consumes_expr`, `GroupForm.consumes_expr`: a form around statements or around an
  element.
* `Context.consumes_expr`: forms around each other.
* `Context.parse_around`: a source in a context.
-/

namespace SurfaceGrammar

open Lookahead Spaced

/-! ## The statements of a source in a block -/

/-- The statements of a source are read in front of a closing curly bracket as they are read in the
source. -/
theorem Parse.consumes_source {source : String} {settings : Settings} {m : Module} {ts : List Token}
    {stop : Token} (h : parse source settings = .ok m)
    (hstream : TokenStream.ofSource source settings.file = ⟨ts, .ok stop⟩) {k : Token}
    (closing : k.kind = .closeCurly) (count : Nat) (lineBreak : Bool) {levels : Nat}
    (hlevels : ts.length < levels) (r : List Token) :
    Consumes (statements (descent .standard settings.elseRequired levels) .closeCurly levels)
      .outside (TokenStream.moved ⟨ts, .ok stop⟩ count lineBreak).tokens (k :: r)
      (· = m.body.map (Stmt.mapMark (Span.shift count))) := by
  intro u hu houtside hahead
  obtain ⟨s, hs, -, -, hsahead⟩ := ParseState.exists_start hstream
  obtain ⟨q, rfl, hbehind, hinline⟩ : ∃ q : Sequel, q.stop = k ∧
      q.behind = ⟨r, u.upcoming.ending⟩ ∧ q.inline = false :=
    ⟨⟨k, ⟨r, u.upcoming.ending⟩, by rw [closing]; decide, false⟩, rfl, rfl, rfl⟩
  obtain ⟨hdepth, htype⟩ := Surroundings.mk.inj houtside
  have hmeets : s.Meets (.later count (some q)) u :=
    ParseState.meets_of_moved lineBreak hs hstream
      (fun t _ => q.admits_of hinline (by rw [closing]; decide) t)
      (by rw [hahead, hbehind]) (by rw [hbehind]) (.inr (by simpa using hdepth)) htype
  rw [parse_of_levels hs (hsahead ▸ hlevels)] at h
  split at h
  · next body t hbody =>
    cases h
    obtain ⟨body', t', n, hbody', ht', heof, hrun⟩ := exists_statements_of_sequel
      (agrees_descent _ settings.elseRequired levels) rfl (.inr rfl) (.inr closing) hmeets hbody
    obtain ⟨hcurrent, hupcoming⟩ := ht'.sequel rfl heof
    rw [map_of_ok (statements_of_close (hcurrent ▸ closing) (by decide))] at hrun
    obtain ⟨w, hpass, -⟩ := finds_statements (sound_descent settings.elseRequired levels)
      (by decide) _ hu.toPlaced hrun
    have hwords := hpass.ahead
    rw [hahead, ParseState.ahead_of_sequel hcurrent hupcoming, hbehind] at hwords
    rw [List.append_cancel_right hwords]
    refine ⟨_, t', hrun, ?_, hpass⟩
    rw [List.append_nil]
    exact Correspondence.statements_later hbody'
  · cases h

/-! ## Where an expression ends and where one begins -/

namespace Lookahead

/-- The kinds with which no expression goes on and none begins. -/
def closers : List TokenKind := [.eof, .comma, .closeParen, .closeBracket, .closeCurly]

/-- Nothing follows, or a token with which no expression goes on. -/
def Closes (r : List Token) : Prop := kind r ∈ closers

instance : DecidablePred Closes := fun r => inferInstanceAs (Decidable (kind r ∈ closers))

/-- An expression begins that is no conditional, no label is bound and no type is defined. -/
structure Opens (ts : List Token) : Prop where
  start : kind ts ∈ expressionStart
  noLabel : bindsLabel ts = false
  noType : definesType ts = false
  noConditional : isKeyword .if ts = false

variable {t : Token} {ts r : List Token}

theorem Closes.endsChain (h : Closes r) (c : Surroundings) : endsChain c r = true := by
  rw [Lookahead.endsChain, Bool.or_eq_true]
  unfold Closes at h
  generalize kind r = next at h ⊢
  refine .inr ?_
  revert next
  decide

theorem Closes.endsOperators (h : Closes r) (c : Surroundings) (power : Power) :
    endsOperators c power r = true := by
  have hnone : BinaryOperator.ofKind? (kind r) = none := by
    unfold Closes at h
    generalize kind r = next at h ⊢
    revert next
    decide
  rw [Lookahead.endsOperators, hnone, Bool.or_true]

/-- No list of elements or statements closes where an expression begins. -/
theorem Opens.kind_ne (h : Opens ts) {close : TokenKind} (hclose : close ∈ closers) :
    kind ts ≠ close := by
  have hstart := h.start
  generalize kind ts = first at hstart
  rintro rfl
  revert first
  decide

theorem Opens.ne_nil (h : Opens ts) : ts ≠ [] := by
  rintro rfl
  exact absurd h.start (by decide)

/-- An expression begins with something else than a word. -/
theorem Opens.of_mark (hstart : t.kind ∈ expressionStart) (hkind : t.kind ≠ .identifier) :
    Opens (t :: ts) := by
  have hword : t.keyword? = none := Token.keyword?_eq_none hkind
  refine ⟨hstart, ?_, ?_, ?_⟩
  · simp [bindsLabel, hkind]
  · simp [definesType, Token.isKeyword, hword]
  · simp [Lookahead.isKeyword, Token.isKeyword, hword]

/-- An expression begins with a word, and an opening bracket follows. -/
theorem Opens.of_word (hkind : t.kind = .identifier) (hif : t.isKeyword .if = false)
    (hopen : kind ts = .openParen ∨ kind ts = .openCurly) : Opens (t :: ts) := by
  refine ⟨by simp [hkind, expressionStart], ?_, ?_, hif⟩
  · rcases hopen with hopen | hopen <;> simp [bindsLabel, hopen, TokenKind.isUpdater]
  · rcases hopen with hopen | hopen <;> simp [definesType, hopen]

end Lookahead

section Productions

variable {elseRequired : Bool} {levels : Nat} {c : Surroundings} {t k : Token}
  {ts us r : List Token} {P : Expr Span → Prop}

/-- Where nothing goes on with an expression, its calls, members and suffixes end. -/
theorem Consumes.closedChain {down : Descent} {bound : Nat} {e : Expr Span} (ends : Closes r)
    (he : P e) : Consumes (Parse.suffixChain down (bound + 1) e) c [] r P :=
  (Consumes.chainEnd (ends.endsChain c)).mono (by rintro _ rfl; exact he)

/-- An expression without operators. -/
theorem Consumes.closedExpr (rule : PrimaryRule) {Q : Expr Span → Prop}
    (hrule : Rules.standardPrimary? (kind (ts ++ us ++ r)) = some rule) (ends : Closes r)
    (head : Consumes (Parse.primary (descent .standard elseRequired (levels + 1)) rule) c ts
      (us ++ r) P)
    (chain : ∀ e, P e → Consumes (Parse.suffixChain (descent .standard elseRequired (levels + 1))
      (levels + 1) e) c us r Q) :
    Consumes (Parse.expr (descent .standard elseRequired (levels + 1)) .default) c (ts ++ us) r
      Q := by
  have hexpr : Consumes (Parse.expr (descent .standard elseRequired (levels + 1)) .default) c
      (ts ++ (us ++ [])) r Q := by
    refine .expr rule (by simpa [Rules.standard] using hrule) head chain fun e he => ?_
    refine (Consumes.operatorsEnd rfl (ends.endsOperators c _)).mono ?_
    rintro _ rfl
    exact he
  rwa [List.append_nil] at hexpr

/-- A primary expression that nothing goes on with. -/
theorem Consumes.primary (rule : PrimaryRule)
    (hrule : Rules.standardPrimary? (kind (ts ++ r)) = some rule) (ends : Closes r)
    (head : Consumes (Parse.primary (descent .standard elseRequired (levels + 1)) rule) c ts r P) :
    Consumes (Parse.expr (descent .standard elseRequired (levels + 1)) .default) c ts r P := by
  have hexpr : Consumes (Parse.expr (descent .standard elseRequired (levels + 1)) .default) c
      (ts ++ []) r P :=
    .closedExpr rule (by rwa [List.append_nil]) ends head fun _ he => .closedChain ends he
  rwa [List.append_nil] at hexpr

theorem Consumes.label (hkind : t.kind = .identifier) (plain : t.keyword? = none) :
    Consumes (Parse.label (descent .standard elseRequired levels)) c [t] r
      (· = .label t.value t.span) := by
  refine .of_current rfl ?_
  rw [plain]
  exact .plainLabel hkind

/-- A label is an expression where nothing goes on with it. -/
theorem Consumes.labelExpr (hkind : t.kind = .identifier) (plain : t.keyword? = none)
    (ends : Closes r) :
    Consumes (Parse.expr (descent .standard elseRequired (levels + 1)) .default) c [t] r
      (· = .label t.value t.span) :=
  .primary .label (by rw [List.cons_append, kind_cons, hkind]; rfl) ends
    (.label hkind plain)

/-- A call of a label. -/
theorem Consumes.labelCall {n o : Token} {P : Parse.Delimited (Expr Span) → Prop}
    (hkind : n.kind = .identifier) (plain : n.keyword? = none) (opening : o.kind = .openParen)
    (sameLine : o.newlineBefore = false) (ends : Closes r)
    (inner : Consumes (Parse.delimited (levels + 2) .closeParen
      ((descent .standard elseRequired (levels + 2)).expr .default)) c ts r P) :
    Consumes (Parse.expr (descent .standard elseRequired (levels + 2)) .default) c (n :: o :: ts) r
      fun e => ∃ list, P list ∧
        e = .call (.label n.value n.span) list.elements ⟨n.span.start, list.closing.span.stop⟩ := by
  have hsame : breaks c [o] = false := by
    rw [breaks, isOnNewLine_cons, sameLine]
    exact Bool.and_false _
  have hchain (e : Expr Span) (he : e = .label n.value n.span) :
      Consumes (Parse.suffixChain (descent .standard elseRequired (levels + 2)) (levels + 2) e) c
        (o :: (ts ++ [])) r fun e => ∃ list, P list ∧
          e = .call (.label n.value n.span) list.elements
            ⟨n.span.start, list.closing.span.stop⟩ := by
    subst he
    exact .chainCall hsame opening (.call opening inner) fun _ he => .closedChain ends he
  rw [List.append_nil] at hchain
  have hrule : Rules.standardPrimary? (kind ([n] ++ o :: ts ++ r)) = some .label := by
    rw [List.append_assoc, List.cons_append, kind_cons, hkind]
    rfl
  exact .closedExpr .label hrule ends (.label hkind plain) hchain

/-- A list with one statement, which is an expression. -/
theorem Consumes.onlyStatement {close : TokenKind} (opens : Opens (ts ++ r))
    (nonempty : ts ≠ []) (stop : kind r = close) (hclose : close = .eof ∨ close = .closeCurly)
    (inner : Consumes (Parse.expr (descent .standard elseRequired (levels + 1)) .default) c ts r
      P) :
    Consumes (Parse.statements (descent .standard elseRequired (levels + 2)) close (levels + 2)) c
      ts r fun body => ∃ e, Stmt.only? body = some e ∧ P e := by
  obtain ⟨t, ts, rfl⟩ := List.exists_cons_of_ne_nil nonempty
  have hcloses : close ∈ closers := by rcases hclose with rfl | rfl <;> decide
  have hends : endsStatement close r = true := by
    rcases hclose with rfl | rfl <;> simp [endsStatement, stop]
  have hexpr : Consumes ((descent .standard elseRequired (levels + 2)).statementExpr false) c
      (t :: ts) r P :=
    .statementExpr opens.noLabel opens.noConditional inner
  have heof : kind (t :: ts ++ r) ≠ .eof := opens.kind_ne (by decide)
  have hlist : Consumes (Parse.statements (descent .standard elseRequired (levels + 2)) close
      (levels + 2)) c (t :: ts ++ ([] ++ [])) r fun body =>
        ∃ x xs, (∃ e, P e ∧ x = .expression e) ∧ xs = [] ∧ body = x :: xs :=
    .statement (by simpa using opens.start) (by simpa using opens.kind_ne hcloses)
      (by simpa using heof) (.content opens.noType hexpr) (.noSemicolon hends)
      (.noStatement stop (by rcases hclose with rfl | rfl <;> decide))
  rw [List.append_nil, List.append_nil] at hlist
  refine hlist.mono ?_
  rintro _ ⟨_, _, ⟨e, he, rfl⟩, rfl, rfl⟩
  exact ⟨e, rfl, he⟩

end Productions

/-! ## Forms -/

namespace Spaced.Spells

variable {gap : List Char} {text : String} {t : Token}

theorem keyword? (h : Spells ⟨gap, .name text⟩ t) : t.keyword? = Keyword.ofSpelling? text := by
  have hkind : t.kind = .identifier := h.kind
  rw [Token.keyword?, if_pos hkind, h.value]
  rfl

end Spaced.Spells

section Forms

variable {elseRequired : Bool} {levels : Nat} {c : Surroundings} {gap : List Char} {k : Token}
  {ts us r : List Token}

/-- An expression of a form with statements begins, whatever follows. -/
theorem BlockForm.opens {form : BlockForm} (hus : List.Forall₂ Spells (form.opening gap) us)
    (ts : List Token) : Opens (us ++ ts) := by
  cases form with
  | block kind =>
    obtain _ | ⟨hword, _ | ⟨hopening, ⟨⟩⟩⟩ := hus
    refine .of_word hword.kind ?_ (.inr hopening.kind)
    rw [Token.isKeyword, hword.keyword?, Keyword.ofSpelling?_spelling]
    cases kind <;> rfl
  | function =>
    obtain _ | ⟨hword, _ | ⟨hopening, _⟩⟩ := hus
    refine .of_word hword.kind ?_ (.inl hopening.kind)
    rw [Token.isKeyword, hword.keyword?, Keyword.ofSpelling?_spelling]
    rfl

/-- An expression of a form with an element begins, whatever follows. -/
theorem GroupForm.opens {form : GroupForm} (hus : List.Forall₂ Spells (form.opening gap) us)
    (ts : List Token) : Opens (us ++ ts) := by
  cases form with
  | array =>
    obtain _ | ⟨hopening, -⟩ := hus
    exact .of_mark (by simp [hopening.kind, Lexeme.mark, expressionStart])
      (by simp [hopening.kind, Lexeme.mark])
  | tuple label =>
    obtain _ | ⟨hopening, -⟩ := hus
    exact .of_mark (by simp [hopening.kind, Lexeme.mark, expressionStart])
      (by simp [hopening.kind, Lexeme.mark])
  | call callee =>
    obtain _ | ⟨hname, _ | ⟨hopening, -⟩⟩ := hus
    refine .of_word hname.kind ?_ (.inl hopening.kind)
    rw [Token.isKeyword, hname.keyword?, callee.valid.plain]
    rfl

/-- A form with statements is read if its statements are. -/
theorem BlockForm.consumes_label {form : BlockForm} {down : Descent} {P : List (Stmt Span) → Prop}
    (hus : List.Forall₂ Spells (form.opening gap) us) (plain : c.returnType = false)
    (closing : k.kind = .closeCurly) (hbound : 0 < down.bound)
    (inner : Consumes (Parse.statements down .closeCurly down.bound) .outside ts (k :: r) P) :
    Consumes (Parse.label down) c (us ++ (ts ++ [k])) r
      fun e => ∃ body, form.body? e = some body ∧ P body := by
  obtain ⟨grouped, returnType⟩ := c
  obtain rfl : returnType = false := plain
  have hbody {o : Token} (opening : o.kind = .openCurly) :
      Consumes (Parse.blockBody down) ⟨grouped, false⟩ (o :: (ts ++ [k])) r P :=
    .blockBody opening inner closing
  have hnext {o : Token} (opening : o.kind = .openCurly) :
      Lookahead.kind (o :: (ts ++ [k]) ++ r) = .openCurly := opening
  cases form with
  | block kind =>
    obtain _ | @⟨_, w, _, _, hword, _ | @⟨_, o, _, _, hopening, ⟨⟩⟩⟩ := hus
    refine .of_current rfl ?_
    rw [hword.keyword?, Keyword.ofSpelling?_spelling]
    have hblock : Consumes (Parse.block down kind) ⟨grouped, false⟩ (w :: o :: (ts ++ [k])) r
        fun e => ∃ body, (BlockForm.block kind).body? e = some body ∧ P body := by
      refine (Consumes.block hword.kind (hbody hopening.kind)).mono ?_
      rintro _ ⟨body, span, hP, rfl⟩
      exact ⟨body, if_pos rfl, hP⟩
    have hopens := decide_eq_true (hnext hopening.kind)
    cases kind with
    | «do» => exact .opener true hopens hblock
    | scope => exact .opener true hopens hblock
  | function =>
    obtain _ | @⟨_, w, _, _, hword, _ | @⟨_, p, _, _, hparen, _ | @⟨_, q, _, _, hclose, _ |
      @⟨_, o, _, _, hopening, ⟨⟩⟩⟩⟩⟩ := hus
    refine .of_current rfl ?_
    rw [hword.keyword?, Keyword.ofSpelling?_spelling]
    obtain ⟨bound, hbound'⟩ := Nat.exists_eq_succ_of_ne_zero (Nat.ne_of_gt hbound)
    have hparameters : Consumes (Parse.delimited down.bound .closeParen (Parse.parameter down))
        ⟨grouped, false⟩ [q] ([] ++ (o :: (ts ++ [k]) ++ r)) fun list => list.elements = [] := by
      rw [hbound']
      refine (Consumes.delimited (.noElement hclose.kind) hclose.kind).mono fun _ h => ?_
      exact congrArg Prod.fst h.1
    have hinner (typed : Bool) : Consumes (Parse.functionBody down typed) ⟨grouped, false⟩
        (o :: (ts ++ [k])) r fun b => ∃ body, P body ∧ b = .block body :=
      .statementBody (hnext hopening.kind) (hbody hopening.kind)
    have hfunction := Consumes.function none hword.kind nofun hparen.kind hparameters
      (.typeAbsent (by rw [hnext hopening.kind]; decide)) hinner
    refine hfunction.mono ?_
    rintro _ ⟨list, _, _, span, hlist, rfl, ⟨body, hP, rfl⟩, rfl⟩
    rw [hlist]
    exact ⟨body, rfl, hP⟩

theorem BlockForm.consumes_expr {form : BlockForm} {P : List (Stmt Span) → Prop}
    (hus : List.Forall₂ Spells (form.opening gap) us) (plain : c.returnType = false)
    (closing : k.kind = .closeCurly) (ends : Closes r)
    (inner : Consumes (Parse.statements (descent .standard elseRequired (levels + 1)) .closeCurly
      (levels + 1)) .outside ts (k :: r) P) :
    Consumes (Parse.expr (descent .standard elseRequired (levels + 1)) .default) c
      (us ++ (ts ++ [k])) r fun e => ∃ body, form.body? e = some body ∧ P body := by
  refine .primary .label ?_ ends (BlockForm.consumes_label hus plain closing levels.succ_pos inner)
  cases form with
  | block kind =>
    obtain _ | ⟨hword, -⟩ := hus
    rw [List.append_assoc, List.cons_append, kind_cons, hword.kind]
    rfl
  | function =>
    obtain _ | ⟨hword, -⟩ := hus
    rw [List.append_assoc, List.cons_append, kind_cons, hword.kind]
    rfl

theorem GroupForm.closing_mem_closers (form : GroupForm) : form.closing ∈ closers := by
  cases form <;> simp [GroupForm.closing, closers]

/-- A form with an element is read if its element is. -/
theorem GroupForm.consumes_expr {form : GroupForm} {P : Expr Span → Prop}
    (hus : List.Forall₂ Spells (form.opening gap) us) (closing : k.kind = form.closing)
    (ends : Closes r) (opens : Opens (ts ++ k :: r))
    (inner : Consumes (Parse.expr (descent .standard elseRequired (levels + 1)) .default) .inside ts
      (k :: r) P) :
    Consumes (Parse.expr (descent .standard elseRequired (levels + 2)) .default) c
      (us ++ (ts ++ [k])) r fun e => ∃ x, form.element? e = some x ∧ P x := by
  have hcomma : kind (k :: r) ≠ .comma := by
    rw [kind_cons, closing]
    cases form <;> nofun
  -- The last element is the same in all forms, and only tuples have another one.
  have hlast (bound : Nat) (afterComma : Bool) : Consumes (Parse.elements form.closing
      ((descent .standard elseRequired (levels + 2)).expr .default) (bound + 1) afterComma) .inside
      ts (k :: r) fun xs => ∃ x, P x ∧ xs = ([x], false) :=
    .lastElement (opens.kind_ne form.closing_mem_closers) inner hcomma
  cases form with
  | array =>
    obtain _ | @⟨_, o, _, _, hopening, ⟨⟩⟩ := hus
    refine .primary (.sequence .array) ?_ ends ?_
    · rw [List.append_assoc, List.cons_append, kind_cons, hopening.kind]
      rfl
    · refine (Consumes.array hopening.kind (.delimited (hlast _ _) closing)).mono ?_
      rintro _ ⟨list, ⟨⟨e, he, hlist⟩, -⟩, rfl⟩
      rw [(Prod.mk.inj hlist).1]
      exact ⟨e, rfl, he⟩
  | tuple label =>
    obtain _ | @⟨_, o, _, _, hopening, _ | @⟨_, n, _, _, hname, _ | @⟨_, a, _, _, hseparator,
      ⟨⟩⟩⟩⟩ := hus
    refine .primary (.sequence .tuple) ?_ ends ?_
    · rw [List.append_assoc, List.cons_append, kind_cons, hopening.kind]
      rfl
    · have hlabel : Consumes ((descent .standard elseRequired (levels + 2)).expr .default) .inside
          [n] (a :: (ts ++ k :: r)) (· = .label n.value n.span) :=
        .labelExpr hname.kind (by rw [hname.keyword?, label.valid.plain])
          (by rw [Closes, kind_cons, hseparator.kind]; decide)
      have helements := Consumes.moreElements false
        (by rw [List.cons_append, kind_cons, hname.kind]; nofun) hlabel hseparator.kind
        (hlast levels true)
      refine (Consumes.tuple hopening.kind (.delimited helements closing) ?_).mono ?_
      · rintro list ⟨⟨first, rest, -, ⟨e, -, rfl⟩, hlist⟩, -⟩ hlength
        rw [(Prod.mk.inj hlist).1] at hlength
        cases hlength
      · rintro _ ⟨list, ⟨⟨_, _, rfl, ⟨e, he, rfl⟩, hlist⟩, -⟩, rfl⟩
        rw [(Prod.mk.inj hlist).1]
        exact ⟨e, if_pos hname.value, he⟩
  | call callee =>
    obtain _ | @⟨_, n, _, _, hname, _ | @⟨_, o, _, _, hopening, ⟨⟩⟩⟩ := hus
    have hplain : n.keyword? = none := by rw [hname.keyword?, callee.valid.plain]
    have hexpr := Consumes.labelCall (c := c) hname.kind hplain hopening.kind
      hopening.newlineBefore ends (.delimited (hlast _ false) closing)
    refine hexpr.mono ?_
    rintro _ ⟨list, ⟨⟨x, hx, hlist⟩, -⟩, rfl⟩
    rw [(Prod.mk.inj hlist).1]
    exact ⟨x, if_pos hname.value, hx⟩

end Forms

/-! ## Contexts -/

namespace Context

variable {elseRequired : Bool} {context : Context} {us bs vs r : List Token}

/-- An expression begins where a context does. -/
theorem opens (hus : List.Forall₂ Spells context.opening us) (ts : List Token) :
    Opens (us ++ ts) := by
  cases context with
  | innermost gap form front line => exact BlockForm.opens hus ts
  | block gap form inside line =>
    obtain ⟨us, us', rfl, hform, -⟩ := exists_of_append hus
    rw [List.append_assoc]
    exact form.opens hform _
  | group gap form inside back =>
    obtain ⟨us, us', rfl, hform, -⟩ := exists_of_append hus
    rw [List.append_assoc]
    exact form.opens hform _

/-- A context is read as one expression if the statements in its innermost place are read, and these
are found there. The induction is on the forms of the context. -/
theorem consumes_expr {P : List (Stmt Span) → Prop}
    (inner : ∀ (levels : Nat) (k : Token) (r : List Token), bs.length < levels →
      k.kind = .closeCurly → Consumes (Parse.statements (descent .standard elseRequired levels)
        .closeCurly levels) .outside bs (k :: r) P)
    (hus : List.Forall₂ Spells context.opening us) (hvs : List.Forall₂ Spells context.closing vs)
    {c : Surroundings} (plain : c.returnType = false) (ends : Closes r) {levels : Nat}
    (hlevels : us.length + bs.length + vs.length ≤ levels) :
    Consumes (Parse.expr (descent .standard elseRequired levels) .default) c (us ++ (bs ++ vs)) r
      fun e => ∃ body, context.inside? e = some body ∧ P body := by
  induction context generalizing us vs c r levels with
  | innermost gap form front line =>
    obtain _ | @⟨_, k, _, _, hclosing, ⟨⟩⟩ := hvs
    simp only [List.length_cons, List.length_nil] at hlevels
    obtain ⟨levels, rfl⟩ : ∃ n, levels = n + 1 := ⟨levels - 1, by omega⟩
    exact form.consumes_expr hus plain hclosing.kind ends (inner _ k r (by omega) hclosing.kind)
  | block gap form inside line ih =>
    obtain ⟨us, us', rfl, hform, hus'⟩ := exists_of_append hus
    obtain ⟨vs', _, rfl, hvs', hlast⟩ := exists_of_append hvs
    obtain _ | @⟨_, k, _, _, hclosing, ⟨⟩⟩ := hlast
    have hkind : k.kind = .closeCurly := hclosing.kind
    have hpos : 0 < us.length :=
      List.length_pos_of_ne_nil (by simpa using (form.opens hform []).ne_nil)
    simp only [List.length_append, List.length_cons, List.length_nil] at hlevels
    obtain ⟨n, rfl⟩ : ∃ n, levels = n + 2 := ⟨levels - 2, by omega⟩
    have hinside : Consumes (Parse.expr (descent .standard elseRequired (n + 1)) .default) .outside
        (us' ++ (bs ++ vs')) (k :: r) fun e => ∃ body, inside.inside? e = some body ∧ P body :=
      ih hus' hvs' rfl (by rw [Closes, kind_cons, hkind]; decide) (by omega)
    have hopens : Opens (us' ++ (bs ++ vs') ++ k :: r) := by
      rw [List.append_assoc]
      exact opens hus' _
    have hne : us' ++ (bs ++ vs') ≠ [] := by
      simpa using (opens hus' (bs ++ vs')).ne_nil
    have hlist : Consumes (Parse.statements (descent .standard elseRequired (n + 2)) .closeCurly
        (n + 2)) .outside (us' ++ (bs ++ vs')) (k :: r) fun body =>
          ∃ e, Stmt.only? body = some e ∧ ∃ body, inside.inside? e = some body ∧ P body :=
      .onlyStatement hopens hne hkind (.inr rfl) hinside
    have hexpr := form.consumes_expr hform plain hkind ends hlist
    simp only [List.append_assoc] at hexpr ⊢
    refine hexpr.mono ?_
    rintro e ⟨body, hbody, e', honly, body', hinside', hP⟩
    exact ⟨body', by simp only [inside?, hbody, honly, hinside', Option.bind_some], hP⟩
  | group gap form inside back ih =>
    obtain ⟨us, us', rfl, hform, hus'⟩ := exists_of_append hus
    obtain ⟨vs', _, rfl, hvs', hlast⟩ := exists_of_append hvs
    obtain _ | @⟨_, k, _, _, hclosing, ⟨⟩⟩ := hlast
    have hkind : k.kind = form.closing := hclosing.kind
    have hpos : 0 < us.length :=
      List.length_pos_of_ne_nil (by simpa using (form.opens hform []).ne_nil)
    simp only [List.length_append, List.length_cons, List.length_nil] at hlevels
    obtain ⟨n, rfl⟩ : ∃ n, levels = n + 2 := ⟨levels - 2, by omega⟩
    have hinside : Consumes (Parse.expr (descent .standard elseRequired (n + 1)) .default) .inside
        (us' ++ (bs ++ vs')) (k :: r) fun e => ∃ body, inside.inside? e = some body ∧ P body :=
      ih hus' hvs' rfl (by rw [Closes, kind_cons, hkind]; exact form.closing_mem_closers) (by omega)
    have hopens : Opens (us' ++ (bs ++ vs') ++ k :: r) := by
      rw [List.append_assoc]
      exact opens hus' _
    have hexpr := form.consumes_expr (c := c) hform hkind ends hopens hinside
    simp only [List.append_assoc] at hexpr ⊢
    refine hexpr.mono ?_
    rintro e ⟨e', helement, body, hinside', hP⟩
    exact ⟨body, by simp only [inside?, helement, hinside', Option.bind_some], hP⟩

/-- A source that is parsed is parsed in every context. In the innermost place stand its statements,
as many bytes later as the context takes before them. -/
theorem parse_around (context : Context) {source : String} {settings : Settings} {m : Module}
    (h : parse source settings = .ok m) :
    ∃ w e, parse (context.around source) settings = .ok w ∧ w.body = [.expression e] ∧
      context.inside? e =
        some (m.body.map (Stmt.mapMark (Span.shift context.before.utf8ByteSize))) := by
  obtain ⟨w, stop, hstream, -⟩ := derives_of_parse h
  generalize words w = ts at hstream
  obtain ⟨us, vs, lineBreak, last, hus, hvs, haround⟩ := context.exists_ofSource_around hstream
  have hlength := TokenStream.length_tokens_moved ⟨ts, .ok stop⟩ context.before.utf8ByteSize
    lineBreak
  have hsource (levels : Nat) (k : Token) (r : List Token) (hlevels : ts.length < levels)
      (hclosing : k.kind = .closeCurly) :=
    Parse.consumes_source h hstream hclosing context.before.utf8ByteSize lineBreak hlevels r
  rw [← hlength] at hsource
  generalize (TokenStream.moved ⟨ts, .ok stop⟩ context.before.utf8ByteSize lineBreak).tokens = bs
    at haround hsource
  have hexpr := context.consumes_expr (c := .outside) (r := []) hsource hus hvs rfl (by decide)
    (Nat.le_succ _)
  have hopens : Opens (us ++ (bs ++ vs) ++ []) := by
    rw [List.append_assoc]
    exact opens hus _
  have hlevels : (us ++ (bs ++ vs)).length < us.length + bs.length + vs.length + 2 := by
    simp only [List.length_append]
    omega
  obtain ⟨w, hw, e, honly, b, hinside, rfl⟩ := parse_of_consumes haround hlevels <|
    Consumes.onlyStatement hopens (by simpa using hopens.ne_nil) kind_nil (.inl rfl) hexpr
  exact ⟨w, e, hw, Stmt.eq_of_only? honly, hinside⟩

/-- The line break between the two statements ends the first one in the block, though the block
stands in an array, and the comment ends with its line. -/
theorem parse_around_do : ∃ (context : Context) (m w : Module) (e : Expr Span),
    context.around "a\n-1 // c" = "f([do \x7ba\n-1 // c\n\x7d\n])" ∧
    parse "a\n-1 // c" {} = .ok m ∧ m.body.length = 2 ∧
    parse (context.around "a\n-1 // c") {} = .ok w ∧ w.body = [.expression e] ∧
    context.inside? e = some (m.body.map (Stmt.mapMark (Span.shift 7))) := by
  let line : LineBreak := ⟨⟨['\n'], List.forall_mem_singleton.mpr rfl⟩, List.mem_singleton_self _⟩
  let inside : Context := .innermost ⟨[], nofun⟩ (.block .do) ⟨[], nofun⟩ line
  let context : Context := .group ⟨[], nofun⟩ (.call ⟨"f", ⟨_, [], rfl, rfl, nofun⟩, rfl⟩)
    (.group ⟨[], nofun⟩ .array inside line.toBlank) ⟨[], nofun⟩
  have hbefore : context.before.utf8ByteSize = 7 := by decide +kernel
  have hlength : (parse "a\n-1 // c" {}).toOption.map (·.body.length) = some 2 := by
    decide +kernel
  obtain ⟨m, hm⟩ : ∃ m, parse "a\n-1 // c" {} = .ok m := exists_of_isOk (by decide +kernel)
  rw [hm] at hlength
  obtain ⟨w, e, hw, hbody, hinside⟩ := context.parse_around hm
  rw [hbefore] at hinside
  exact ⟨context, m, w, e, by decide +kernel, hm, Option.some.inj hlength, hw, hbody, hinside⟩

end Context

end SurfaceGrammar

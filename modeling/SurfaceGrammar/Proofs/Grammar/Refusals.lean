import SurfaceGrammar.Proofs.Grammar.Clauses
import SurfaceGrammar.Proofs.Parse.Rejects

/-!
# Productions that stop at a token

A production fails at a token if one of the productions that it calls fails there, and all that it
reads before is as it should be. Each statement stands beside the one that says what the production
reads if nothing fails.

* `Rejects.firstElement`, `Rejects.moreElements`, `Rejects.delimited`: elements between delimiters.
* `Rejects.array`, `Rejects.tuple`, `Rejects.call` and others: the forms with such elements.
* `Rejects.expr`, `Rejects.statementExpr`: whole expressions.
* `Rejects.statement`, `Rejects.unended`: statements that fail or that something else stands behind.
* `parse_of_rejects`: whole sources.
-/

namespace SurfaceGrammar

open Lookahead

namespace Rejects

variable {β : Type} {down : Descent} {c : Surroundings} {t o : Token} {ts us r : List Token}
  {e : Error}

/-! ## Delimited elements -/

section Delimited

variable {element : Parse β} {close : TokenKind} {bound : Nat} {P : β → Prop}

/-- No element begins with the next token, which does not close the list either. -/
theorem firstElement (afterComma : Bool) (go : kind (ts ++ r) ≠ close)
    (inner : Rejects element c ts r e) :
    Rejects (Parse.elements close element (bound + 1) afterComma) c ts r e := by
  unfold Parse.elements
  refine .of_look (.standsAt close) ?_
  rintro _ rfl
  rw [if_neg (by simpa using go)]
  exact .first inner

/-- The list fails behind an element and a comma. -/
theorem moreElements (afterComma : Bool) (go : kind (ts ++ o :: (us ++ r)) ≠ close)
    (inner : Consumes element c ts (o :: (us ++ r)) P) (separator : o.kind = .comma)
    (more : Rejects (Parse.elements close element bound true) c us r e) :
    Rejects (Parse.elements close element (bound + 1) afterComma) c (ts ++ o :: us) r e := by
  unfold Parse.elements
  refine .of_look (.standsAt close) ?_
  rintro _ rfl
  rw [if_neg (by simpa using go)]
  refine .bind inner fun x hx => .of_look (.standsAt .comma) ?_
  rintro _ rfl
  rw [List.cons_append, kind_cons, if_pos (decide_eq_true separator)]
  exact .cons .advance fun _ _ => .first more

theorem delimited (inner : Rejects (Parse.elements close element bound false) .inside ts r e) :
    Rejects (Parse.delimited bound close element) c ts r e := by
  intro s hs hc hahead
  have hready : ParseState.ReadyFor
      { s with groupDepth := s.groupDepth + 1, inReturnType := false } r :=
    hs.congr rfl rfl
  have hinside : ParseState.surroundings
      { s with groupDepth := s.groupDepth + 1, inReturnType := false } = .inside := by
    simp [ParseState.surroundings, Surroundings.inside]
  obtain ⟨s₁, helements⟩ := inner _ hready hinside hahead
  refine ⟨s₁, ?_⟩
  unfold Parse.delimited Parse.watchedDelimited
  rw [Parse.bind_enterGroup, Parse.bind_setInReturnType, Parse.bind_of_error helements]

end Delimited

section Lists

theorem array (opening : o.kind = .openBracket)
    (inner : Rejects (Parse.delimited down.bound .closeBracket (down.expr .default)) c ts r e) :
    Rejects (Parse.array down) c (o :: ts) r e :=
  .cons (.expect opening) fun _ _ => .first inner

theorem tuple (opening : o.kind = .openParen)
    (inner : Rejects (Parse.delimited down.bound .closeParen (down.expr .default)) c ts r e) :
    Rejects (Parse.tuple down) c (o :: ts) r e :=
  .cons (.expect opening) fun _ _ => .first inner

theorem call {callee : Expr Span} (opening : o.kind = .openParen)
    (inner : Rejects (Parse.delimited down.bound .closeParen (down.expr .default)) c ts r e) :
    Rejects (Parse.call down callee) c (o :: ts) r e :=
  .cons (.expect opening) fun _ _ => .first inner

theorem set (word : t.kind = .identifier) (opening : o.kind = .openCurly)
    (inner : Rejects (Parse.delimited down.bound .closeCurly (down.expr .default)) c ts r e) :
    Rejects (Parse.set down) c (t :: o :: ts) r e :=
  .cons (.expect word) fun _ _ => .cons (.expect opening) fun _ _ => .first inner

theorem mapping (word : t.kind = .identifier) (opening : o.kind = .openCurly)
    (inner : Rejects (Parse.delimited down.bound .closeCurly (Parse.entry down)) c ts r e) :
    Rejects (Parse.mapping down) c (t :: o :: ts) r e :=
  .cons (.expect word) fun _ _ => .cons (.expect opening) fun _ _ => .first inner

theorem object (opening : o.kind = .openCurly)
    (inner : Rejects (Parse.delimited down.bound .closeCurly (Parse.field down)) c ts r e) :
    Rejects (Parse.object down) c (o :: ts) r e :=
  .cons (.expect opening) fun _ _ => .first inner

/-- A word that opens a set or a map does so before a curly bracket. -/
theorem opener {production : Parse (Expr Span)}
    (hopens : (!c.returnType && kind (ts ++ r) = .openCurly) = true)
    (h : Rejects production c (t :: ts) r e) :
    Rejects (do if ← Parse.opensCurly then production else Parse.plainLabel) c (t :: ts) r e := by
  refine of_look .opensCurly ?_
  rintro _ rfl
  rwa [hopens, if_pos rfl]

end Lists

/-! ## Whole expressions -/

section Expressions

variable {power : Power} {bound : Nat} {first : Expr Span} {P : Expr Span → Prop}

theorem chainCall (sameLine : breaks c [o] = false) (opening : o.kind = .openParen)
    (inner : Rejects (Parse.call down first) c (o :: ts) r e) :
    Rejects (Parse.suffixChain down (bound + 1) first) c (o :: ts) r e := by
  unfold Parse.suffixChain
  refine .of_look (.atLineBreak (List.cons_append ..)) ?_
  rintro _ rfl
  rw [sameLine, if_neg (by decide)]
  refine .of_look .currentKind ?_
  rintro _ rfl
  rw [List.cons_append, kind_cons, opening]
  exact .first inner

/-- No expression begins with the token. -/
theorem noExpr (hstart : down.rules.primary? t.kind = none) (ht : t.kind ≠ .eof) :
    Rejects (Parse.expr down power) c [] (t :: r) (t.unexpected expressionStart) := by
  refine .of_look .currentKind ?_
  rintro _ rfl
  refine .of_look (.record _) fun _ _ => ?_
  rw [List.nil_append, kind_cons, hstart]
  exact .unexpected ht _

theorem primary (rule : PrimaryRule) (hrule : down.rules.primary? (kind (ts ++ r)) = some rule)
    (inner : Rejects (Parse.primary down rule) c ts r e) :
    Rejects (Parse.expr down power) c ts r e := by
  refine .of_look .currentKind ?_
  rintro _ rfl
  refine .of_look (.record _) fun _ _ => ?_
  rw [hrule]
  exact .first inner

/-- What follows a primary expression fails. -/
theorem chain (rule : PrimaryRule)
    (hrule : down.rules.primary? (kind (ts ++ us ++ r)) = some rule)
    (head : Consumes (Parse.primary down rule) c ts (us ++ r) P)
    (inner : ∀ b, P b → Rejects (Parse.suffixChain down down.bound b) c us r e) :
    Rejects (Parse.expr down power) c (ts ++ us) r e := by
  refine .of_look .currentKind ?_
  rintro _ rfl
  refine .of_look (.record _) fun _ _ => ?_
  rw [hrule]
  exact .bind head fun b hb => .first (inner b hb)

/-- Where no label is bound and no conditional begins, an expression in the place of a statement
fails like any other. -/
theorem statementExpr {valueRequired : Bool} (noLabel : bindsLabel (t :: ts ++ r) = false)
    (noConditional : t.isKeyword .if = false)
    (h : Rejects (Parse.expr down .default) c (t :: ts) r e) :
    Rejects (Parse.statementExpr down valueRequired) c (t :: ts) r e := by
  refine .of_look .currentKind fun _ _ => .of_look (.record _) fun _ _ => ?_
  refine .of_look (.standsAt .identifier) ?_
  rintro _ rfl
  rw [List.cons_append, kind_cons]
  by_cases hkind : t.kind = .identifier
  · rw [if_pos (decide_eq_true hkind)]
    refine .of_look .peek fun next hnext => ?_
    have hbinds : next.kind ≠ .colon ∧ next.kind.isUpdater = false := by
      rw [← hnext.kind]
      simpa [bindsLabel, hkind] using noLabel
    rw [if_neg hbinds.1, hbinds.2, if_neg (by decide)]
    refine .of_look (.current rfl) ?_
    rintro _ rfl
    rw [noConditional, if_neg (by decide)]
    exact h
  · rw [if_neg (by simpa using hkind)]
    exact h

end Expressions

/-! ## Statements -/

section Statements

variable {close : TokenKind}

/-- A statement that is an expression fails where the expression does. -/
theorem content (noType : definesType (t :: ts ++ r) = false)
    (inner : Rejects (down.statementExpr false) c (t :: ts) r e) :
    Rejects (Parse.statementContent down) c (t :: ts) r e := by
  refine .of_look .beginsTypeDefinition ?_
  rintro _ rfl
  rw [noType, if_neg (by decide)]
  exact .map inner

/-- The next token is no end of a statement, and none stands before it. -/
theorem terminator (noSemicolon : t.kind ≠ .semicolon)
    (goesOn : endsStatement close (t :: r) = false) :
    Rejects (Parse.terminator close) c [] (t :: r) (t.unexpected [.semicolon, close]) := by
  have hgo : ¬(t.kind = close ∨ t.kind = .eof ∨ t.newlineBefore = true) := by
    intro h
    rw [endsStatement_cons_iff.mpr ⟨noSemicolon, h⟩] at goesOn
    cases goesOn
  refine .of_look (.current rfl) ?_
  rintro _ rfl
  rw [if_neg noSemicolon, if_neg hgo]
  exact .unexpected (fun heof => hgo (.inr (.inl heof))) _

theorem statement (content : Rejects (Parse.statementContent down) c ts r e) :
    Rejects (Parse.statement down close) c ts r e := by
  unfold Parse.statement
  rw [Watch.atStatement_idle, pure_bind]
  exact .of_look .currentKind fun _ _ => .of_look (.record _) fun _ _ => .first content

/-- A statement is read, and behind it stands what does not end it. -/
theorem unended {P : Stmt Span → Prop} (content : Consumes (Parse.statementContent down) c ts r P)
    (terminator : Rejects (Parse.terminator close) c [] r e) :
    Rejects (Parse.statement down close) c ts r e := by
  have hboth : Rejects (Parse.statement down close) c (ts ++ []) r e := by
    unfold Parse.statement
    rw [Watch.atStatement_idle, pure_bind]
    exact .of_look .currentKind fun _ _ => .of_look (.record _) fun _ _ =>
      .bind content fun _ _ => .first terminator
  rwa [List.append_nil] at hboth

/-- The first statement of a list fails. -/
theorem statements {bound : Nat} (hstart : kind (ts ++ r) ∈ expressionStart)
    (go : kind (ts ++ r) ≠ close) (inner : Rejects (Parse.statement down close) c ts r e) :
    Rejects (Parse.statements down close (bound + 1)) c ts r e := by
  have hnot : kind (ts ++ r) ≠ .semicolon ∧ kind (ts ++ r) ≠ .eof := by
    generalize kind (ts ++ r) = kind at hstart
    revert kind
    decide
  unfold Parse.statements
  refine .of_look (.standsAt .semicolon) ?_
  rintro _ rfl
  rw [if_neg (by simpa using hnot.1)]
  refine .of_look (.standsAt close) ?_
  rintro _ rfl
  rw [if_neg (by simpa using go)]
  refine .of_look (.standsAt .eof) ?_
  rintro _ rfl
  rw [if_neg (by simpa using hnot.2)]
  exact .first inner

end Statements

end Rejects

/-! ## Whole sources -/

section Source

variable {source : String} {settings : Settings} {ts r : List Token} {t : Token} {e : Error}

/-- The parse of a source with a token begins with all its tokens ahead. -/
theorem ParseState.exists_start_of_token
    (hstream : (TokenStream.ofSource source settings.file).tokens = ts ++ t :: r) :
    ∃ s, ParseState.start source settings = .ok s ∧ s.ReadyFor (t :: r) ∧
      s.surroundings = .outside ∧ s.ahead = ts ++ t :: r := by
  obtain ⟨first, hread⟩ :
      ∃ first, (TokenStream.ofSource source settings.file).read = .ok first := by
    unfold TokenStream.read
    rw [hstream]
    cases ts <;> exact ⟨_, rfl⟩
  have hs := ParseState.start_eq_ok_iff.mpr ⟨_, _, hread, rfl⟩
  obtain ⟨hplaced, houtside, hahead, -⟩ := ParseState.of_start hs
  exact ⟨_, hs, .of_cons hplaced t r, houtside, hahead.trans hstream⟩

/-- If the statements of a source are refused at one of its tokens, the source is refused. -/
theorem parse_of_rejects {levels : Nat}
    (hstream : (TokenStream.ofSource source settings.file).tokens = ts ++ t :: r)
    (hlevels : (ts ++ t :: r).length < levels)
    (h : Rejects (Parse.statements (descent .standard settings.elseRequired levels) .eof levels)
      .outside ts (t :: r) e) : parse source settings = .error (.error e) := by
  obtain ⟨s, hs, hready, houtside, hahead⟩ := ParseState.exists_start_of_token hstream
  obtain ⟨s', hrun⟩ := h s hready houtside hahead
  rw [parse_of_levels hs (hahead ▸ hlevels), hrun]

end Source

end SurfaceGrammar

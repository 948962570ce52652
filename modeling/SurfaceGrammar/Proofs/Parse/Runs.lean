import SurfaceGrammar.Proofs.Parse.Step

/-!
# Productions that succeed, taken apart

A production that succeeds took certain steps, one after the other, and made its result of theirs.
Here each production is taken apart once, so that what is proved about all of them is proved from
their steps. The steps that pass a single token are left as they are: what they do depends on what
is known of the state.

* `Parse.ok_of_elements`, `Parse.ok_of_delimited`: the elements between delimiters.
* `Parse.ok_of_tuple`, `Parse.ok_of_function`, `Parse.ok_of_conditional` and others: the forms of
  expressions.
* `Parse.ok_of_statements`, `Parse.ok_of_blockBody`: statements and blocks.
* `Parse.ok_of_suffixChain`, `Parse.ok_of_operators`: a round of what follows an expression.
* `Parse.ok_of_expr`, `Parse.ok_of_statementExpr`: whole expressions.
-/

namespace SurfaceGrammar.Parse

variable {down : Descent} {s s' : ParseState} {e : Expr Span}

/-! ## Literals and labels -/

theorem ok_of_literal (h : literal s = .ok e s') : ∃ t l, advance s = .ok t s' ∧
    e = .literal l t.span ∧
    ((s.current.kind = .number ∧ ∃ x,
        (Decimal.read? s.current.value.toList).filter Binary64.isFinite = some x ∧
        l = .number x) ∨
      (s.current.kind = .string ∧ l = .string s.current.value) ∨
      s.current.kind = .char ∧ ∃ c rest, s.current.value.toList = c :: rest ∧ l = .char c) := by
  unfold literal at h
  rw [bind_current] at h
  cases hkind : s.current.kind
  case number =>
    rw [hkind] at h
    dsimp only at h
    cases hvalue : (Decimal.read? s.current.value.toList).filter Binary64.isFinite with
    | none =>
      rw [hvalue] at h
      cases h
    | some x =>
      rw [hvalue] at h
      obtain ⟨t, s₁, ht, h⟩ := ok_of_bind h
      cases h
      exact ⟨t, _, ht, rfl, .inl ⟨rfl, x, rfl, rfl⟩⟩
  case string =>
    rw [hkind] at h
    obtain ⟨t, s₁, ht, h⟩ := ok_of_bind h
    cases h
    exact ⟨t, _, ht, rfl, .inr (.inl ⟨rfl, rfl⟩)⟩
  case char =>
    rw [hkind] at h
    dsimp only at h
    cases hvalue : s.current.value.toList with
    | nil =>
      rw [hvalue] at h
      exact absurd h unexpected_ne_ok
    | cons c rest =>
      rw [hvalue] at h
      obtain ⟨t, s₁, ht, h⟩ := ok_of_bind h
      cases h
      exact ⟨t, _, ht, rfl, .inr (.inr ⟨rfl, c, rest, rfl, rfl⟩)⟩
  all_goals
    rw [hkind] at h
    exact absurd h unexpected_ne_ok

theorem ok_of_boolean {value : Bool} (h : boolean value s = .ok e s') :
    ∃ t, advance s = .ok t s' ∧ e = .literal (.boolean value) t.span := by
  obtain ⟨t, s₁, ht, h⟩ := ok_of_bind h
  cases h
  exact ⟨t, ht, rfl⟩

theorem ok_of_plainLabel (h : plainLabel s = .ok e s') :
    ∃ t, expect .identifier s = .ok t s' ∧ e = .label t.value t.span := by
  obtain ⟨t, s₁, ht, h⟩ := ok_of_bind h
  cases h
  exact ⟨t, ht, rfl⟩

/-! ## Delimited elements -/

section Delimited

variable {β : Type} {element : Parse β} {close : TokenKind} {bound : Nat} {afterComma : Bool}

/-- A round of the loop: no element, the last one, or one in front of a comma. -/
theorem ok_of_elements {xs : List β × Bool}
    (h : elements close element (bound + 1) afterComma s = .ok xs s') :
    (s.current.kind = close ∧ xs = ([], afterComma) ∧ s' = s) ∨
    s.current.kind ≠ close ∧ ∃ x s₁, element s = .ok x s₁ ∧
      ((s₁.current.kind ≠ .comma ∧ xs = ([x], false) ∧ s' = s₁) ∨
        s₁.current.kind = .comma ∧ ∃ t s₂ rest, advance s₁ = .ok t s₂ ∧
          elements close element bound true s₂ = .ok rest s' ∧ xs = (x :: rest.1, rest.2)) := by
  unfold elements at h
  rw [bind_standsAt] at h
  by_cases hclose : s.current.kind = close
  · rw [if_pos (decide_eq_true hclose)] at h
    cases h
    exact .inl ⟨hclose, rfl, rfl⟩
  · rw [if_neg (by simpa using hclose)] at h
    obtain ⟨x, s₁, hx, h⟩ := ok_of_bind h
    refine .inr ⟨hclose, x, s₁, hx, ?_⟩
    rw [bind_standsAt] at h
    by_cases hcomma : s₁.current.kind = .comma
    · rw [if_pos (decide_eq_true hcomma)] at h
      obtain ⟨t, s₂, ht, h⟩ := ok_of_bind h
      obtain ⟨rest, s₃, hrest, h⟩ := ok_of_bind h
      cases h
      exact .inr ⟨hcomma, t, s₂, rest, ht, hrest, rfl⟩
    · rw [if_neg (by simpa using hcomma)] at h
      cases h
      exact .inl ⟨hcomma, rfl, rfl⟩

/-- The elements are read in a context of their own. The closing delimiter is passed in the outer
one. -/
theorem ok_of_delimited {list : Delimited β} (h : delimited bound close element s = .ok list s') :
    ∃ s₁, elements close element bound false
        { s with groupDepth := s.groupDepth + 1, inReturnType := false } =
          .ok (list.elements, list.trailingComma) s₁ ∧
      expectOr close [.comma, close]
        { s₁ with groupDepth := s₁.groupDepth - 1, inReturnType := s.inReturnType } =
          .ok list.closing s' := by
  unfold delimited watchedDelimited at h
  rw [bind_enterGroup, bind_setInReturnType] at h
  obtain ⟨⟨xs, comma⟩, s₁, hxs, h⟩ := ok_of_bind h
  dsimp only at h hxs
  rw [bind_atExit, bind_exitGroup, bind_setInReturnType] at h
  obtain ⟨k, s₂, hk, h⟩ := ok_of_bind h
  cases h
  exact ⟨s₁, hxs, hk⟩

end Delimited

/-! ## Composite expressions -/

/-- Only one element without a comma is an expression in parentheses. -/
theorem ok_of_tuple (h : tuple down s = .ok e s') : ∃ o s₁ list, expect .openParen s = .ok o s₁ ∧
    delimited down.bound .closeParen (down.expr .default) s₁ = .ok list s' ∧
    ((list.elements = [e] ∧ list.trailingComma = false) ∨
      (list.elements.length = 1 → list.trailingComma = true) ∧
        e = .sequence .tuple list.elements ⟨o.span.start, list.closing.span.stop⟩) := by
  unfold tuple at h
  obtain ⟨o, s₁, ho, h⟩ := ok_of_bind h
  obtain ⟨⟨es, comma, closing⟩, s₂, hlist, h⟩ := ok_of_bind h
  match es, comma, h with
  | [_], false, h =>
    cases h
    exact ⟨o, s₁, _, ho, hlist, .inl ⟨rfl, rfl⟩⟩
  | [], _, h | [_], true, h | _ :: _ :: _, _, h =>
    cases h
    exact ⟨o, s₁, _, ho, hlist, .inr ⟨by simp, rfl⟩⟩

theorem ok_of_array (h : array down s = .ok e s') : ∃ o s₁ list, expect .openBracket s = .ok o s₁ ∧
    delimited down.bound .closeBracket (down.expr .default) s₁ = .ok list s' ∧
    e = .sequence .array list.elements ⟨o.span.start, list.closing.span.stop⟩ := by
  obtain ⟨o, s₁, ho, h⟩ := ok_of_bind h
  obtain ⟨list, s₂, hlist, h⟩ := ok_of_bind h
  cases h
  exact ⟨o, s₁, list, ho, hlist, rfl⟩

theorem ok_of_object (h : object down s = .ok e s') : ∃ o s₁ list, expect .openCurly s = .ok o s₁ ∧
    delimited down.bound .closeCurly (field down) s₁ = .ok list s' ∧
    e = .object list.elements ⟨o.span.start, list.closing.span.stop⟩ := by
  obtain ⟨o, s₁, ho, h⟩ := ok_of_bind h
  obtain ⟨list, s₂, hlist, h⟩ := ok_of_bind h
  cases h
  exact ⟨o, s₁, list, ho, hlist, rfl⟩

theorem ok_of_set (h : set down s = .ok e s') : ∃ k s₁ o s₂ list,
    expect .identifier s = .ok k s₁ ∧ expect .openCurly s₁ = .ok o s₂ ∧
    delimited down.bound .closeCurly (down.expr .default) s₂ = .ok list s' ∧
    e = .sequence .set list.elements ⟨k.span.start, list.closing.span.stop⟩ := by
  obtain ⟨k, s₁, hk, h⟩ := ok_of_bind h
  obtain ⟨o, s₂, ho, h⟩ := ok_of_bind h
  obtain ⟨list, s₃, hlist, h⟩ := ok_of_bind h
  cases h
  exact ⟨k, s₁, o, s₂, list, hk, ho, hlist, rfl⟩

theorem ok_of_mapping (h : mapping down s = .ok e s') : ∃ k s₁ o s₂ list,
    expect .identifier s = .ok k s₁ ∧ expect .openCurly s₁ = .ok o s₂ ∧
    delimited down.bound .closeCurly (entry down) s₂ = .ok list s' ∧
    e = .mapping list.elements ⟨k.span.start, list.closing.span.stop⟩ := by
  obtain ⟨k, s₁, hk, h⟩ := ok_of_bind h
  obtain ⟨o, s₂, ho, h⟩ := ok_of_bind h
  obtain ⟨list, s₃, hlist, h⟩ := ok_of_bind h
  cases h
  exact ⟨k, s₁, o, s₂, list, hk, ho, hlist, rfl⟩

theorem ok_of_entry {x : Entry Span} (h : entry down s = .ok x s') : ∃ key s₁ o s₂ value,
    down.expr .default s = .ok key s₁ ∧ expect .colon s₁ = .ok o s₂ ∧
    down.expr .default s₂ = .ok value s' ∧ x = ⟨key, value, key.mark.join value.mark⟩ := by
  obtain ⟨key, s₁, hkey, h⟩ := ok_of_bind h
  obtain ⟨o, s₂, ho, h⟩ := ok_of_bind h
  obtain ⟨value, s₃, hvalue, h⟩ := ok_of_bind h
  cases h
  exact ⟨key, s₁, o, s₂, value, hkey, ho, hvalue, rfl⟩

theorem ok_of_field {x : Field Span} (h : field down s = .ok x s') : ∃ n s₁ o s₂ value,
    expect .identifier s = .ok n s₁ ∧ expect .colon s₁ = .ok o s₂ ∧
    down.expr .default s₂ = .ok value s' ∧ x = ⟨n.value, value, n.span.join value.mark⟩ := by
  obtain ⟨n, s₁, hn, h⟩ := ok_of_bind h
  obtain ⟨o, s₂, ho, h⟩ := ok_of_bind h
  obtain ⟨value, s₃, hvalue, h⟩ := ok_of_bind h
  cases h
  exact ⟨n, s₁, o, s₂, value, hn, ho, hvalue, rfl⟩

theorem ok_of_typeAfterColon {o : Option (Expr Span)} (h : typeAfterColon down s = .ok o s') :
    (s.current.kind ≠ .colon ∧ o = none ∧ s' = s) ∨
    s.current.kind = .colon ∧ ∃ t s₁ type, advance s = .ok t s₁ ∧
      down.expr .default s₁ = .ok type s' ∧ o = some type := by
  unfold typeAfterColon at h
  rw [bind_standsAt] at h
  by_cases hcolon : s.current.kind = .colon
  · rw [if_pos (decide_eq_true hcolon)] at h
    obtain ⟨t, s₁, ht, h⟩ := ok_of_bind h
    obtain ⟨type, s₂, htype, h⟩ := ok_of_bind h
    cases h
    exact .inr ⟨hcolon, t, s₁, type, ht, htype, rfl⟩
  · rw [if_neg (by simpa using hcolon)] at h
    cases h
    exact .inl ⟨hcolon, rfl, rfl⟩

theorem ok_of_parameter {x : Parameter Span} (h : parameter down s = .ok x s') : ∃ n s₁ type,
    expect .identifier s = .ok n s₁ ∧ typeAfterColon down s₁ = .ok type s' ∧
    x = ⟨n.value, type, s'.spanFrom n.span.start⟩ := by
  obtain ⟨n, s₁, hn, h⟩ := ok_of_bind h
  obtain ⟨type, s₂, htype, h⟩ := ok_of_bind h
  cases h
  exact ⟨n, s₁, type, hn, htype, rfl⟩

theorem ok_of_functionName {name : Option String} (h : functionName s = .ok name s') :
    (s.current.kind ≠ .identifier ∧ name = none ∧ s' = s) ∨
    s.current.kind = .identifier ∧ ∃ t, advance s = .ok t s' ∧ name = some t.value := by
  unfold functionName at h
  rw [bind_standsAt] at h
  by_cases hkind : s.current.kind = .identifier
  · rw [if_pos (decide_eq_true hkind)] at h
    obtain ⟨t, s₁, ht, h⟩ := ok_of_bind h
    cases h
    exact .inr ⟨hkind, t, ht, rfl⟩
  · rw [if_neg (by simpa using hkind)] at h
    cases h
    exact .inl ⟨hkind, rfl, rfl⟩

theorem ok_of_functionBody {typed : Bool} {body : Body Span}
    (h : functionBody down typed s = .ok body s') :
    (s.current.kind = .arrow ∧ ∃ t s₁ value, advance s = .ok t s₁ ∧
      down.statementExpr true s₁ = .ok value s' ∧ body = .arrow value) ∨
    s.current.kind = .openCurly ∧ ∃ inner, blockBody down s = .ok inner s' ∧
      body = .block inner := by
  unfold functionBody at h
  rw [bind_currentKind] at h
  cases hkind : s.current.kind
  case arrow =>
    rw [hkind] at h
    obtain ⟨t, s₁, ht, h⟩ := ok_of_bind h
    obtain ⟨value, hvalue, rfl⟩ := ok_of_map h
    exact .inl ⟨rfl, t, s₁, value, ht, hvalue, rfl⟩
  case openCurly =>
    rw [hkind] at h
    obtain ⟨inner, hinner, rfl⟩ := ok_of_map h
    exact .inr ⟨rfl, inner, hinner, rfl⟩
  all_goals
    rw [hkind] at h
    exact absurd h unexpected_ne_ok

/-- The return type and the body are each read in a context of their own. -/
theorem ok_of_function (h : function down s = .ok e s') :
    ∃ k s₁ name s₂ o s₃ list s₄ type s₅ body s₆,
    expect .identifier { s with events := s.events.push (.function s.current.kind) } = .ok k s₁ ∧
    functionName s₁ = .ok name s₂ ∧
    expectOr .openParen [.identifier, .openParen] s₂ = .ok o s₃ ∧
    delimited down.bound .closeParen (parameter down) s₃ = .ok list s₄ ∧
    typeAfterColon down { s₄ with inReturnType := true } = .ok type s₅ ∧
    functionBody down type.isSome { s₅ with inReturnType := false } = .ok body s₆ ∧
    s' = { s₆ with inReturnType := s₄.inReturnType } ∧
    e = .function name list.elements type body (s'.spanFrom k.span.start) := by
  unfold function at h
  rw [bind_currentKind, bind_record] at h
  obtain ⟨k, s₁, hk, h⟩ := ok_of_bind h
  obtain ⟨name, s₂, hname, h⟩ := ok_of_bind h
  obtain ⟨o, s₃, ho, h⟩ := ok_of_bind h
  obtain ⟨list, s₄, hlist, h⟩ := ok_of_bind h
  rw [bind_setInReturnType] at h
  obtain ⟨type, s₅, htype, h⟩ := ok_of_bind h
  rw [bind_setInReturnType] at h
  obtain ⟨body, s₆, hbody, h⟩ := ok_of_bind h
  rw [bind_setInReturnType] at h
  cases h
  exact ⟨k, s₁, name, s₂, o, s₃, list, s₄, type, s₅, body, s₆, hk, hname, ho, hlist, htype, hbody,
    rfl, rfl⟩

theorem ok_of_block {kind : BlockKind} (h : block down kind s = .ok e s') : ∃ k s₁ body,
    expect .identifier { s with events := s.events.push (.block kind) } = .ok k s₁ ∧
    blockBody down s₁ = .ok body s' ∧ e = .block kind body (s'.spanFrom k.span.start) := by
  unfold block at h
  rw [bind_record] at h
  obtain ⟨k, s₁, hk, h⟩ := ok_of_bind h
  obtain ⟨body, s₂, hbody, h⟩ := ok_of_bind h
  cases h
  exact ⟨k, s₁, body, hk, hbody, rfl⟩

/-! ## Statements and blocks -/

theorem ok_of_beginsTypeDefinition {b : Bool} (h : beginsTypeDefinition s = .ok b s') :
    (s.current.isKeyword .type = false ∧ b = false ∧ s' = s) ∨
    s.current.isKeyword .type = true ∧ ∃ next, peek s = .ok next s' ∧
      b = (decide (next.kind = .identifier) && !next.newlineBefore) := by
  unfold beginsTypeDefinition at h
  rw [bind_current] at h
  by_cases hword : s.current.isKeyword .type = true
  · rw [if_pos hword] at h
    obtain ⟨next, s₁, hnext, h⟩ := ok_of_bind h
    cases h
    exact .inr ⟨hword, next, hnext, rfl⟩
  · rw [if_neg hword] at h
    cases h
    exact .inl ⟨Bool.eq_false_iff.mpr hword, rfl, rfl⟩

theorem ok_of_typeDefinition {x : Stmt Span} (h : typeDefinition down s = .ok x s') :
    ∃ k s₁ n s₂ a s₃ definition, advance s = .ok k s₁ ∧ expect .identifier s₁ = .ok n s₂ ∧
      expect .assignment s₂ = .ok a s₃ ∧ down.expr .default s₃ = .ok definition s' ∧
      x = .typeDefinition n.value definition (s'.spanFrom k.span.start) := by
  obtain ⟨k, s₁, hk, h⟩ := ok_of_bind h
  obtain ⟨n, s₂, hn, h⟩ := ok_of_bind h
  obtain ⟨a, s₃, ha, h⟩ := ok_of_bind h
  obtain ⟨definition, s₄, hdefinition, h⟩ := ok_of_bind h
  cases h
  exact ⟨k, s₁, n, s₂, a, s₃, definition, hk, hn, ha, hdefinition, rfl⟩

theorem ok_of_statementContent {x : Stmt Span} (h : statementContent down s = .ok x s') :
    ∃ b s₁, beginsTypeDefinition s = .ok b s₁ ∧
      ((b = true ∧ typeDefinition down s₁ = .ok x s') ∨
        b = false ∧ ∃ e, down.statementExpr false s₁ = .ok e s' ∧ x = .expression e) := by
  obtain ⟨b, s₁, hb, h⟩ := ok_of_bind h
  refine ⟨b, s₁, hb, ?_⟩
  cases b with
  | true => exact .inl ⟨rfl, h⟩
  | false =>
    rw [if_neg (by decide)] at h
    obtain ⟨e, he, rfl⟩ := ok_of_map h
    exact .inr ⟨rfl, e, he, rfl⟩

theorem ok_of_terminator {close : TokenKind} {u : Unit} (h : terminator close s = .ok u s') :
    (s.current.kind = .semicolon ∧ ∃ t, advance s = .ok t s') ∨
    s.current.kind ≠ .semicolon ∧ s' = s ∧
      (s.current.kind = close ∨ s.current.kind = .eof ∨ s.current.newlineBefore = true) := by
  unfold terminator at h
  rw [bind_current] at h
  by_cases hsemicolon : s.current.kind = .semicolon
  · rw [if_pos hsemicolon] at h
    obtain ⟨t, s₁, ht, h⟩ := ok_of_bind h
    cases h
    exact .inl ⟨hsemicolon, t, ht⟩
  · rw [if_neg hsemicolon] at h
    split at h
    · next hend =>
      cases h
      exact .inr ⟨hsemicolon, rfl, hend⟩
    · exact absurd h unexpected_ne_ok

theorem ok_of_statement {close : TokenKind} {x : Stmt Span}
    (h : statement down close s = .ok x s') : ∃ s₁ u,
      statementContent down { s with events := s.events.push (.statement s.current.kind) } =
        .ok x s₁ ∧ terminator close s₁ = .ok u s' := by
  unfold statement at h
  rw [bind_atStatement, bind_currentKind, bind_record] at h
  obtain ⟨content, s₁, hcontent, h⟩ := ok_of_bind h
  obtain ⟨u, s₂, hterminator, h⟩ := ok_of_bind h
  cases h
  exact ⟨s₁, u, hcontent, hterminator⟩

/-- A round of the loop: a semicolon, no statement, or a statement. -/
theorem ok_of_statements {close : TokenKind} {bound : Nat} {body : List (Stmt Span)}
    (h : statements down close (bound + 1) s = .ok body s') :
    (s.current.kind = .semicolon ∧ ∃ t s₁, advance s = .ok t s₁ ∧
      statements down close bound s₁ = .ok body s') ∨
    (s.current.kind = close ∧ body = [] ∧ s' = s) ∨
    s.current.kind ≠ close ∧ s.current.kind ≠ .eof ∧ ∃ first s₁ rest,
      statement down close s = .ok first s₁ ∧ statements down close bound s₁ = .ok rest s' ∧
      body = first :: rest := by
  unfold statements at h
  rw [bind_standsAt] at h
  by_cases hsemicolon : s.current.kind = .semicolon
  · rw [if_pos (decide_eq_true hsemicolon)] at h
    obtain ⟨t, s₁, ht, h⟩ := ok_of_bind h
    exact .inl ⟨hsemicolon, t, s₁, ht, h⟩
  · rw [if_neg (by simpa using hsemicolon), bind_standsAt] at h
    by_cases hstop : s.current.kind = close
    · rw [if_pos (decide_eq_true hstop)] at h
      cases h
      exact .inr (.inl ⟨hstop, rfl, rfl⟩)
    · rw [if_neg (by simpa using hstop), bind_standsAt] at h
      by_cases heof : s.current.kind = .eof
      · rw [if_pos (decide_eq_true heof)] at h
        exact absurd h unexpected_ne_ok
      · rw [if_neg (by simpa using heof)] at h
        obtain ⟨first, s₁, hfirst, h⟩ := ok_of_bind h
        obtain ⟨rest, s₂, hrest, h⟩ := ok_of_bind h
        cases h
        exact .inr (.inr ⟨hstop, heof, first, s₁, rest, hfirst, hrest, rfl⟩)

/-- A list of statements ends at the token that closes it. -/
theorem kind_of_statements {close : TokenKind} {bound : Nat} {body : List (Stmt Span)}
    (h : statements down close bound s = .ok body s') : s'.current.kind = close := by
  induction bound generalizing s body with
  | zero => cases h
  | succ bound ih =>
    obtain ⟨-, t, s₁, -, h⟩ | ⟨hstop, -, rfl⟩ | ⟨-, -, first, s₁, rest, -, hrest, -⟩ :=
      ok_of_statements h
    · exact ih h
    · exact hstop
    · exact ih hrest

/-- The statements are read in a context of their own. The closing bracket is passed in the outer
one. -/
theorem ok_of_blockBody {body : List (Stmt Span)} (h : blockBody down s = .ok body s') :
    ∃ o s₁ s₂ k s₃, expect .openCurly s = .ok o s₁ ∧
      statements down .closeCurly down.bound { s₁ with groupDepth := 0 } = .ok body s₂ ∧
      expect .closeCurly { s₂ with groupDepth := s₁.groupDepth } = .ok k s₃ ∧
      s' = { s₃ with events := s₃.events.push (.blockBody body.length) } := by
  unfold blockBody at h
  obtain ⟨o, s₁, ho, h⟩ := ok_of_bind h
  rw [bind_enterBlock] at h
  obtain ⟨inner, s₂, hinner, h⟩ := ok_of_bind h
  obtain ⟨k, s₃, hk, h⟩ := ok_of_bind h
  rw [bind_record] at h
  cases h
  obtain ⟨s₄, hstatements, rfl⟩ := ok_of_exitBlock hinner
  exact ⟨o, s₁, s₄, k, s₃, ho, hstatements, hk, rfl⟩

/-- The statements of a whole source. -/
theorem ok_of_wholeSource {file : String} {m : Module} (h : wholeSource file down s = .ok m s') :
    ∃ s₁, statements down .eof down.bound s = .ok m.body s₁ ∧
      m.span = ⟨⟨0, file⟩, s₁.position⟩ := by
  unfold wholeSource at h
  obtain ⟨body, s₁, hbody, h⟩ := ok_of_bind h
  rw [bind_get, bind_record] at h
  cases h
  exact ⟨s₁, hbody, rfl⟩

/-! ## Conditionals and words -/

theorem ok_of_skipThen {u : Unit} (h : skipThen s = .ok u s') :
    (s.current.isKeyword .then = false ∧ s' = s) ∨
    s.current.isKeyword .then = true ∧ ∃ t, advance s = .ok t s' := by
  unfold skipThen at h
  rw [bind_current] at h
  by_cases hword : s.current.isKeyword .then = true
  · rw [if_pos hword] at h
    obtain ⟨t, s₁, ht, h⟩ := ok_of_bind h
    cases h
    exact .inr ⟨hword, t, ht⟩
  · rw [if_neg hword] at h
    cases h
    exact .inl ⟨Bool.eq_false_iff.mpr hword, rfl⟩

theorem ok_of_elseBranch {valueRequired : Bool} {start : Position} {o : Option (Expr Span)}
    (h : elseBranch down valueRequired start s = .ok o s') :
    (s.current.isKeyword .else = false ∧ (valueRequired && down.elseRequired) = false ∧
      o = none ∧ s' = s) ∨
    s.current.isKeyword .else = true ∧ ∃ t s₁ branch, advance s = .ok t s₁ ∧
      down.statementExpr valueRequired s₁ = .ok branch s' ∧ o = some branch := by
  unfold elseBranch at h
  rw [bind_current] at h
  by_cases hword : s.current.isKeyword .else = true
  · rw [if_pos hword] at h
    obtain ⟨t, s₁, ht, h⟩ := ok_of_bind h
    obtain ⟨branch, s₂, hbranch, h⟩ := ok_of_bind h
    cases h
    exact .inr ⟨hword, t, s₁, branch, ht, hbranch, rfl⟩
  · rw [if_neg hword] at h
    split at h
    · cases h
    · next hrequired =>
      cases h
      exact .inl ⟨Bool.eq_false_iff.mpr hword, Bool.eq_false_iff.mpr hrequired, rfl, rfl⟩

theorem ok_of_conditional {valueRequired : Bool} (h : conditional down valueRequired s = .ok e s') :
    ∃ k s₁ condition s₂ u s₃ thenBranch s₄ otherwise,
      advance { s with events := s.events.push (.conditional valueRequired) } = .ok k s₁ ∧
      down.expr .default s₁ = .ok condition s₂ ∧ skipThen s₂ = .ok u s₃ ∧
      down.statementExpr valueRequired s₃ = .ok thenBranch s₄ ∧
      elseBranch down valueRequired k.span.start s₄ = .ok otherwise s' ∧
      e = .conditional condition thenBranch otherwise (s'.spanFrom k.span.start) := by
  unfold conditional at h
  rw [bind_record] at h
  obtain ⟨k, s₁, hk, h⟩ := ok_of_bind h
  obtain ⟨condition, s₂, hcondition, h⟩ := ok_of_bind h
  obtain ⟨u, s₃, hthen, h⟩ := ok_of_bind h
  obtain ⟨thenBranch, s₄, hbranch, h⟩ := ok_of_bind h
  obtain ⟨otherwise, s₅, hotherwise, h⟩ := ok_of_bind h
  cases h
  exact ⟨k, s₁, condition, s₂, u, s₃, thenBranch, s₄, otherwise, hk, hcondition, hthen, hbranch,
    hotherwise, rfl⟩

theorem ok_of_opensCurly {b : Bool} (h : opensCurly s = .ok b s') :
    (s.inReturnType = true ∧ b = false ∧ s' = s) ∨
    s.inReturnType = false ∧ ∃ next, peek s = .ok next s' ∧
      b = decide (next.kind = .openCurly) := by
  unfold opensCurly at h
  rw [bind_get] at h
  by_cases htype : s.inReturnType = true
  · rw [if_pos htype] at h
    cases h
    exact .inl ⟨htype, rfl, rfl⟩
  · rw [if_neg htype] at h
    obtain ⟨next, s₁, hnext, h⟩ := ok_of_bind h
    cases h
    exact .inr ⟨Bool.eq_false_iff.mpr htype, next, hnext, rfl⟩

/-! ## Declarations and updates -/

theorem ok_of_declaredType {o : Option (Expr Span)} (h : declaredType down s = .ok o s') :
    (s.current.kind = .assignment ∧ o = none ∧ s' = s) ∨
    s.current.kind ≠ .assignment ∧ ∃ type, down.expr .default s = .ok type s' ∧
      o = some type := by
  unfold declaredType at h
  rw [bind_standsAt] at h
  by_cases hassign : s.current.kind = .assignment
  · rw [if_pos (decide_eq_true hassign)] at h
    cases h
    exact .inl ⟨hassign, rfl, rfl⟩
  · rw [if_neg (by simpa using hassign)] at h
    obtain ⟨type, s₁, htype, h⟩ := ok_of_bind h
    cases h
    exact .inr ⟨hassign, type, htype, rfl⟩

theorem ok_of_declaration (h : declaration down s = .ok e s') : ∃ n s₁ o s₂ type s₃ a s₄ value,
    expect .identifier { s with events := s.events.push (.declaration s.current.value) } =
      .ok n s₁ ∧
    expect .colon s₁ = .ok o s₂ ∧ declaredType down s₂ = .ok type s₃ ∧
    expect .assignment s₃ = .ok a s₄ ∧ down.expr .default s₄ = .ok value s' ∧
    e = .declaration n.value type value (s'.spanFrom n.span.start) := by
  unfold declaration at h
  rw [bind_current, bind_record] at h
  obtain ⟨n, s₁, hn, h⟩ := ok_of_bind h
  obtain ⟨o, s₂, ho, h⟩ := ok_of_bind h
  obtain ⟨type, s₃, htype, h⟩ := ok_of_bind h
  obtain ⟨a, s₄, ha, h⟩ := ok_of_bind h
  obtain ⟨value, s₅, hvalue, h⟩ := ok_of_bind h
  cases h
  exact ⟨n, s₁, o, s₂, type, s₃, a, s₄, value, hn, ho, htype, ha, hvalue, rfl⟩

theorem ok_of_update (h : update down s = .ok e s') : ∃ n s₁ operator o s₂ value,
    expect .identifier { s with events := s.events.push (.update s.current.value) } = .ok n s₁ ∧
    Updater.ofKind? s₁.current.kind = some operator ∧ advance s₁ = .ok o s₂ ∧
    down.expr .default s₂ = .ok value s' ∧
    e = .update n.value operator value (s'.spanFrom n.span.start) := by
  unfold update at h
  rw [bind_current, bind_record] at h
  obtain ⟨n, s₁, hn, h⟩ := ok_of_bind h
  rw [bind_currentKind] at h
  cases hupdater : Updater.ofKind? s₁.current.kind with
  | none =>
    rw [hupdater] at h
    exact absurd h unexpected_ne_ok
  | some operator =>
    rw [hupdater] at h
    obtain ⟨o, s₂, ho, h⟩ := ok_of_bind h
    obtain ⟨value, s₃, hvalue, h⟩ := ok_of_bind h
    cases h
    exact ⟨n, s₁, operator, o, s₂, value, hn, hupdater, ho, hvalue, rfl⟩

/-! ## Calls, members, suffixes and operators -/

section Following

variable {base left : Expr Span} {power : Power} {bound : Nat}

theorem ok_of_call (h : call down base s = .ok e s') : ∃ o s₁ list,
    expect .openParen s = .ok o s₁ ∧
    delimited down.bound .closeParen (down.expr .default) s₁ = .ok list s' ∧
    e = .call base list.elements ⟨base.mark.start, list.closing.span.stop⟩ := by
  obtain ⟨o, s₁, ho, h⟩ := ok_of_bind h
  obtain ⟨list, s₂, hlist, h⟩ := ok_of_bind h
  cases h
  exact ⟨o, s₁, list, ho, hlist, rfl⟩

theorem ok_of_member (h : member base s = .ok e s') : ∃ o s₁ n, expect .dot s = .ok o s₁ ∧
    expect .identifier s₁ = .ok n s' ∧
    e = .member base n.value ⟨base.mark.start, n.span.stop⟩ := by
  obtain ⟨o, s₁, ho, h⟩ := ok_of_bind h
  obtain ⟨n, s₂, hn, h⟩ := ok_of_bind h
  cases h
  exact ⟨o, s₁, n, ho, hn, rfl⟩

theorem ok_of_suffix (h : suffix base s = .ok e s') : ∃ operator t,
    SuffixOperator.ofKind? s.current.kind = some operator ∧ advance s = .ok t s' ∧
    e = .suffix base operator ⟨base.mark.start, t.span.stop⟩ := by
  unfold suffix at h
  rw [bind_currentKind] at h
  cases hsymbol : SuffixOperator.ofKind? s.current.kind with
  | none =>
    rw [hsymbol] at h
    exact absurd h unexpected_ne_ok
  | some operator =>
    rw [hsymbol] at h
    obtain ⟨t, s₁, ht, h⟩ := ok_of_bind h
    cases h
    exact ⟨operator, t, rfl, ht, rfl⟩

theorem ok_of_afterPoint (h : afterPoint base s = .ok e s') : ∃ next s₁, peek s = .ok next s₁ ∧
    ((isField next = true ∧ member base s₁ = .ok e s') ∨
      isField next = false ∧ suffix base s₁ = .ok e s') := by
  obtain ⟨next, s₁, hnext, h⟩ := ok_of_bind h
  refine ⟨next, s₁, hnext, ?_⟩
  cases hfield : isField next with
  | true => exact .inl ⟨rfl, by rwa [if_pos hfield] at h⟩
  | false => exact .inr ⟨rfl, by rwa [if_neg (by rw [hfield]; decide)] at h⟩

/-- A round of the loop: nothing, or a call, a member or a suffix. -/
theorem ok_of_suffixChain (h : suffixChain down (bound + 1) base s = .ok e s') :
    ((s.atLineBreak = true ∨
        s.current.kind ∉ [TokenKind.openParen, .dot, .dollar, .hash, .question]) ∧
      e = base ∧ s' = s) ∨
    s.atLineBreak = false ∧ ∃ base' s₁, suffixChain down bound base' s₁ = .ok e s' ∧
      ((s.current.kind = .openParen ∧ call down base s = .ok base' s₁) ∨
        (s.current.kind = .dot ∧ afterPoint base s = .ok base' s₁) ∨
        s.current.kind ∈ [TokenKind.dollar, .hash, .question] ∧
          suffix base s = .ok base' s₁) := by
  unfold suffixChain at h
  rw [bind_atLineBreak] at h
  by_cases hbreak : s.atLineBreak = true
  · rw [if_pos hbreak] at h
    cases h
    exact .inl ⟨.inl hbreak, rfl, rfl⟩
  · rw [if_neg hbreak, bind_currentKind] at h
    have hsame := Bool.eq_false_iff.mpr hbreak
    cases hkind : s.current.kind <;> rw [hkind] at h
    case openParen =>
      obtain ⟨base', s₁, hbase, h⟩ := ok_of_bind h
      exact .inr ⟨hsame, base', s₁, h, .inl ⟨rfl, hbase⟩⟩
    case dot =>
      obtain ⟨base', s₁, hbase, h⟩ := ok_of_bind h
      exact .inr ⟨hsame, base', s₁, h, .inr (.inl ⟨rfl, hbase⟩)⟩
    case dollar | hash | question =>
      obtain ⟨base', s₁, hbase, h⟩ := ok_of_bind h
      exact .inr ⟨hsame, base', s₁, h, .inr (.inr ⟨by decide, hbase⟩)⟩
    all_goals
      cases h
      exact .inl ⟨.inr (by decide), rfl, rfl⟩

theorem ok_of_binary (h : binary down left power s = .ok e s') : ∃ t s₁ operator right,
    advance s = .ok t s₁ ∧ BinaryOperator.ofKind? t.kind = some operator ∧
    down.expr power s₁ = .ok right s' ∧
    e = .binary left operator right (left.mark.join right.mark) := by
  unfold binary at h
  obtain ⟨t, s₁, ht, h⟩ := ok_of_bind h
  cases hsymbol : BinaryOperator.ofKind? t.kind with
  | none =>
    rw [hsymbol] at h
    cases h
  | some operator =>
    rw [hsymbol] at h
    obtain ⟨right, s₂, hright, h⟩ := ok_of_bind h
    cases h
    exact ⟨t, s₁, operator, right, ht, hsymbol, hright, rfl⟩

/-- A round of the loop by the rules of the language: nothing, or an operator with its right
operand. -/
theorem ok_of_operators (hrules : down.rules = .standard)
    (h : operators down power (bound + 1) left s = .ok e s') :
    ((s.atLineBreak = true ∨ ∀ operator, BinaryOperator.ofKind? s.current.kind = some operator →
        operator.level ≤ power) ∧ e = left ∧ s' = s) ∨
    s.atLineBreak = false ∧ ∃ operator left' s₁,
      BinaryOperator.ofKind? s.current.kind = some operator ∧ ¬operator.level ≤ power ∧
      binary down left operator.level s = .ok left' s₁ ∧
      operators down power bound left' s₁ = .ok e s' := by
  unfold operators at h
  rw [bind_atLineBreak] at h
  by_cases hbreak : s.atLineBreak = true
  · rw [if_pos hbreak] at h
    cases h
    exact .inl ⟨.inl hbreak, rfl, rfl⟩
  · rw [if_neg hbreak, bind_currentKind, hrules] at h
    cases hsymbol : BinaryOperator.ofKind? s.current.kind with
    | none =>
      simp only [Rules.standard, hsymbol] at h
      cases h
      refine .inl ⟨.inr ?_, rfl, rfl⟩
      rintro _ ⟨⟩
    | some operator =>
      simp only [Rules.standard, hsymbol, Option.map_some] at h
      by_cases hlevel : operator.level ≤ power
      · rw [if_pos hlevel] at h
        cases h
        refine .inl ⟨.inr ?_, rfl, rfl⟩
        rintro _ ⟨⟩
        exact hlevel
      · rw [if_neg hlevel] at h
        obtain ⟨left', s₁, hleft, h⟩ := ok_of_bind h
        exact .inr ⟨Bool.eq_false_iff.mpr hbreak, operator, left', s₁, rfl, hlevel, hleft, h⟩

end Following

/-! ## Whole expressions -/

/-- An expression by the rules of the language. -/
theorem ok_of_expr (hrules : down.rules = .standard) {power : Power}
    (h : expr down power s = .ok e s') : ∃ rule first s₁ left s₂,
      Rules.standardPrimary? s.current.kind = some rule ∧
      primary down rule { s with events := s.events.push (.expr power s.current.kind) } =
        .ok first s₁ ∧
      suffixChain down down.bound first s₁ = .ok left s₂ ∧
      operators down power down.bound left s₂ = .ok e s' := by
  unfold expr at h
  rw [bind_currentKind, bind_record, hrules] at h
  cases hrule : Rules.standardPrimary? s.current.kind with
  | none =>
    simp only [Rules.standard, hrule] at h
    exact absurd h unexpected_ne_ok
  | some rule =>
    simp only [Rules.standard, hrule] at h
    obtain ⟨first, s₁, hfirst, h⟩ := ok_of_bind h
    obtain ⟨left, s₂, hleft, h⟩ := ok_of_bind h
    exact ⟨rule, first, s₁, left, s₂, rfl, hfirst, hleft, h⟩

/-- The two tokens ahead tell which expression stands in the place of a statement. -/
theorem ok_of_statementExpr {valueRequired : Bool}
    (h : statementExpr down valueRequired s = .ok e s') :
    ∃ s₀ : ParseState, s₀ = { s with events := s.events.push (.statementExpr s.current.kind) } ∧
    ((s₀.current.kind ≠ .identifier ∧ expr down .default s₀ = .ok e s') ∨
      s₀.current.kind = .identifier ∧ ∃ next s₁, peek s₀ = .ok next s₁ ∧
        ((next.kind = .colon ∧ declaration down s₁ = .ok e s') ∨
          (next.kind.isUpdater = true ∧ update down s₁ = .ok e s') ∨
          next.kind ≠ .colon ∧ next.kind.isUpdater = false ∧
            ((s₁.current.isKeyword .if = true ∧ conditional down valueRequired s₁ = .ok e s') ∨
              s₁.current.isKeyword .if = false ∧ expr down .default s₁ = .ok e s'))) := by
  unfold statementExpr at h
  rw [bind_currentKind, bind_record, bind_standsAt] at h
  refine ⟨_, rfl, ?_⟩
  generalize { s with events := s.events.push (.statementExpr s.current.kind) } = s₀ at h ⊢
  by_cases hkind : s₀.current.kind = .identifier
  · rw [if_pos (decide_eq_true hkind)] at h
    obtain ⟨next, s₁, hnext, h⟩ := ok_of_bind h
    refine .inr ⟨hkind, next, s₁, hnext, ?_⟩
    by_cases hcolon : next.kind = .colon
    · rw [if_pos hcolon] at h
      exact .inl ⟨hcolon, h⟩
    · rw [if_neg hcolon] at h
      by_cases hupdater : next.kind.isUpdater = true
      · rw [if_pos hupdater] at h
        exact .inr (.inl ⟨hupdater, h⟩)
      · rw [if_neg hupdater, bind_current] at h
        refine .inr (.inr ⟨hcolon, Bool.eq_false_iff.mpr hupdater, ?_⟩)
        by_cases hif : s₁.current.isKeyword .if = true
        · rw [if_pos hif] at h
          exact .inl ⟨hif, h⟩
        · rw [if_neg hif] at h
          exact .inr ⟨Bool.eq_false_iff.mpr hif, h⟩
  · rw [if_neg (by simpa using hkind)] at h
    exact .inl ⟨hkind, h⟩

end SurfaceGrammar.Parse

import SurfaceGrammar.Proofs.Grammar.Forms
import SurfaceGrammar.Proofs.Grammar.Tandem

/-!
# Clauses in front of given tokens

Conditionals, declarations and updates, and the statements that they are. As for the other
productions, each statement says what a production needs of those that it calls, for any number of
levels and any property of the results.

* `Consumes.conditional`, `Consumes.elsePresent` and others: conditionals and their parts.
* `Consumes.declaration`, `Consumes.update`: labels that are bound.
* `Consumes.declared`, `Consumes.updated`, `Consumes.chosen`, `Consumes.statementExpr`: an
  expression in the place of a statement, told by its first two tokens.
* `Consumes.typeDefinition`, `Consumes.content`: statements without their ends.
* `Consumes.statement`, `Consumes.emptyStatement`, `Consumes.noStatement`: lists of statements.
* `parse_of_consumes`: the statements of a whole source.
-/

namespace SurfaceGrammar

open Lookahead

/-- The next two tokens tell whether a type definition begins. -/
theorem Looks.beginsTypeDefinition {c : Surroundings} {t : Token} {ts r : List Token} :
    Looks Parse.beginsTypeDefinition c (t :: ts) r (· = definesType (t :: ts ++ r)) := by
  unfold Parse.beginsTypeDefinition
  refine (current rfl).bind fun u hu => ?_
  rw [hu, List.cons_append, definesType]
  by_cases hword : t.isKeyword .type = true
  · rw [if_pos hword, hword, Bool.true_and]
    refine peek.bind fun next hnext => .pure ?_
    obtain ⟨hnil, heof⟩ | ⟨rest, hrest⟩ := hnext
    · rw [hnil, heof]
      rfl
    · rw [hrest]
      rfl
  · rw [if_neg hword, Bool.eq_false_iff.mpr hword, Bool.false_and]
    exact .pure rfl

namespace Consumes

variable {down : Descent} {c : Surroundings} {t k n o a : Token} {ts us vs ws r : List Token}

/-! ## Conditionals -/

section Conditionals

variable {valueRequired : Bool} {P Q : Expr Span → Prop} {R : Option (Expr Span) → Prop}

theorem thenPresent (word : t.isKeyword .then = true) :
    Consumes Parse.skipThen c [t] r fun _ => True := by
  refine .of_current rfl ?_
  rw [if_pos word]
  exact .cons .advance fun _ _ => .pure trivial

theorem thenAbsent (absent : isKeyword .then r = false) :
    Consumes Parse.skipThen c [] r fun _ => True := by
  refine .of_look .sees_current fun next hnext => ?_
  rw [← hnext.isKeyword, List.nil_append, absent, if_neg Bool.false_ne_true]
  exact .pure trivial

theorem elsePresent {start : Position} (word : t.isKeyword .else = true)
    (branch : Consumes (down.statementExpr valueRequired) c ts r P) :
    Consumes (Parse.elseBranch down valueRequired start) c (t :: ts) r
      fun o => ∃ e, P e ∧ o = some e := by
  refine .of_current rfl ?_
  rw [if_pos word]
  exact .cons .advance fun _ _ => .last branch fun e he => .pure ⟨e, he, rfl⟩

theorem elseAbsent {start : Position} (absent : isKeyword .else r = false)
    (allowed : (valueRequired && down.elseRequired) = false) :
    Consumes (Parse.elseBranch down valueRequired start) c [] r (· = none) := by
  refine .of_look .sees_current fun next hnext => ?_
  rw [← hnext.isKeyword, List.nil_append, absent, if_neg Bool.false_ne_true, allowed,
    if_neg Bool.false_ne_true]
  exact .pure rfl

theorem conditional
    (condition : Consumes (down.expr .default) c ts (us ++ (vs ++ (ws ++ r))) P)
    (separator : Consumes Parse.skipThen c us (vs ++ (ws ++ r)) fun _ => True)
    (thenBranch : Consumes (down.statementExpr valueRequired) c vs (ws ++ r) Q)
    (elseBranch : ∀ start, Consumes (Parse.elseBranch down valueRequired start) c ws r R) :
    Consumes (Parse.conditional down valueRequired) c (k :: (ts ++ (us ++ (vs ++ ws)))) r
      fun e => ∃ e₁ e₂ o span, P e₁ ∧ Q e₂ ∧ R o ∧ e = .conditional e₁ e₂ o span := by
  refine .of_record (.cons .advance fun _ _ => ?_)
  refine .bind (by simpa only [List.append_assoc] using condition) fun e₁ he₁ => ?_
  refine .bind (by simpa only [List.append_assoc] using separator) fun _ _ => ?_
  refine .bind thenBranch fun e₂ he₂ => .last (elseBranch _) fun o ho => ?_
  exact .of_spanFrom fun span => .pure ⟨e₁, e₂, o, span, he₁, he₂, ho, rfl⟩

end Conditionals

/-! ## Declarations and updates -/

section Bindings

variable {P : Expr Span → Prop} {R : Option (Expr Span) → Prop}

theorem declaredTypePresent (go : kind (ts ++ r) ≠ .assignment)
    (type : Consumes (down.expr .default) c ts r P) :
    Consumes (Parse.declaredType down) c ts r fun o => ∃ e, P e ∧ o = some e := by
  refine .of_standsAt ?_
  rw [if_neg (by simpa using go)]
  exact .last type fun e he => .pure ⟨e, he, rfl⟩

theorem declaredTypeAbsent (absent : kind r = .assignment) :
    Consumes (Parse.declaredType down) c [] r (· = none) := by
  refine .of_standsAt ?_
  rw [List.nil_append, if_pos (decide_eq_true absent)]
  exact .pure rfl

theorem declaration (named : n.kind = .identifier) (colon : o.kind = .colon)
    (declaredType : Consumes (Parse.declaredType down) c ts (a :: (us ++ r)) R)
    (assignment : a.kind = .assignment) (value : Consumes (down.expr .default) c us r P) :
    Consumes (Parse.declaration down) c (n :: o :: (ts ++ a :: us)) r
      fun e => ∃ type value span, R type ∧ P value ∧
        e = .declaration n.value type value span := by
  refine .of_current rfl (.of_record (.cons (.expect named) ?_))
  rintro _ rfl
  refine .cons (.expect colon) fun _ _ => .bind declaredType fun type htype => ?_
  refine .cons (.expect assignment) fun _ _ => .last value fun value hvalue => ?_
  exact .of_spanFrom fun span => .pure ⟨type, value, span, htype, hvalue, rfl⟩

theorem update {operator : Updater} (named : n.kind = .identifier)
    (updater : Updater.ofKind? o.kind = some operator)
    (value : Consumes (down.expr .default) c ts r P) :
    Consumes (Parse.update down) c (n :: o :: ts) r
      fun e => ∃ value span, P value ∧ e = .update n.value operator value span := by
  refine .of_current rfl (.of_record (.cons (.expect named) ?_))
  rintro _ rfl
  refine .of_currentKind ?_
  rw [List.cons_append, kind_cons, updater]
  refine .cons .advance fun _ _ => .last value fun value hvalue => ?_
  exact .of_spanFrom fun span => .pure ⟨value, span, hvalue, rfl⟩

end Bindings

/-! ## Expressions in the place of a statement -/

section Places

variable {valueRequired : Bool} {P : Expr Span → Prop}

/-- The production for an expression in the place of a statement, told by the next two tokens which
form the expression has. -/
theorem statementForm
    (h : Consumes (if t.kind = .identifier then
        if kind (ts ++ r) = .colon then Parse.declaration down
        else if (kind (ts ++ r)).isUpdater then Parse.update down
        else if t.isKeyword .if then Parse.conditional down valueRequired
        else Parse.expr down .default
      else Parse.expr down .default) c (t :: ts) r P) :
    Consumes (Parse.statementExpr down valueRequired) c (t :: ts) r P := by
  refine .of_currentKind (.of_record (.of_standsAt ?_))
  rw [List.cons_append, kind_cons]
  by_cases hkind : t.kind = .identifier
  · rw [if_pos hkind] at h
    rw [if_pos (decide_eq_true hkind)]
    refine .of_peek fun next hnext => ?_
    rw [hnext.kind] at h
    by_cases hcolon : next.kind = .colon
    · rw [if_pos hcolon] at h ⊢
      exact h
    · rw [if_neg hcolon] at h ⊢
      by_cases hupdater : next.kind.isUpdater = true
      · rw [if_pos hupdater] at h ⊢
        exact h
      · rw [if_neg hupdater] at h ⊢
        exact .of_current rfl h
  · rw [if_neg hkind] at h
    rw [if_neg (by simpa using hkind)]
    exact h

theorem declared (named : n.kind = .identifier) (colon : o.kind = .colon)
    (h : Consumes (Parse.declaration down) c (n :: o :: ts) r P) :
    Consumes (Parse.statementExpr down valueRequired) c (n :: o :: ts) r P := by
  refine .statementForm ?_
  rw [if_pos named, List.cons_append, kind_cons, if_pos colon]
  exact h

theorem updated {operator : Updater} (named : n.kind = .identifier)
    (updater : Updater.ofKind? o.kind = some operator)
    (h : Consumes (Parse.update down) c (n :: o :: ts) r P) :
    Consumes (Parse.statementExpr down valueRequired) c (n :: o :: ts) r P := by
  have hupdater : o.kind.isUpdater = true := by rw [← Updater.isSome_ofKind?, updater]; rfl
  have hcolon : o.kind ≠ .colon := by
    intro hcolon
    rw [hcolon] at hupdater
    cases hupdater
  refine .statementForm ?_
  rw [if_pos named, List.cons_append, kind_cons, if_neg hcolon, if_pos hupdater]
  exact h

/-- Where no label is bound, an expression in the place of a statement is a conditional if it
begins with the word for one, and else an expression like any other. -/
theorem unbound (noLabel : bindsLabel (t :: ts ++ r) = false)
    (h : Consumes (if t.isKeyword .if then Parse.conditional down valueRequired
      else Parse.expr down .default) c (t :: ts) r P) :
    Consumes (Parse.statementExpr down valueRequired) c (t :: ts) r P := by
  refine .statementForm ?_
  by_cases hkind : t.kind = .identifier
  · have hbinds : kind (ts ++ r) ≠ .colon ∧ (kind (ts ++ r)).isUpdater = false := by
      simpa [bindsLabel, hkind] using noLabel
    rw [if_pos hkind, if_neg hbinds.1, hbinds.2, if_neg Bool.false_ne_true]
    exact h
  · have hword : t.isKeyword .if = false := by
      simp [Token.isKeyword, Token.keyword?_eq_none hkind]
    rw [hword, if_neg Bool.false_ne_true] at h
    rw [if_neg hkind]
    exact h

theorem chosen (noLabel : bindsLabel (t :: ts ++ r) = false) (word : t.keyword? = some .if)
    (h : Consumes (Parse.conditional down valueRequired) c (t :: ts) r P) :
    Consumes (Parse.statementExpr down valueRequired) c (t :: ts) r P := by
  refine .unbound noLabel ?_
  rw [if_pos (Token.isKeyword_iff.mpr word)]
  exact h

/-- Where no label is bound and no conditional begins, an expression in the place of a statement is
one like any other. -/
theorem statementExpr (noLabel : bindsLabel (t :: ts ++ r) = false)
    (noConditional : t.isKeyword .if = false)
    (h : Consumes (Parse.expr down .default) c (t :: ts) r P) :
    Consumes (Parse.statementExpr down valueRequired) c (t :: ts) r P := by
  refine .unbound noLabel ?_
  rw [noConditional, if_neg Bool.false_ne_true]
  exact h

end Places

/-! ## Statements -/

section Statements

variable {close : TokenKind} {bound : Nat} {P : Stmt Span → Prop} {Q : List (Stmt Span) → Prop}

theorem typeDefinition {P : Expr Span → Prop} (word : k.isKeyword .type = true)
    (named : n.kind = .identifier) (sameLine : n.newlineBefore = false)
    (assignment : a.kind = .assignment)
    (definition : Consumes (down.expr .default) c ts r P) :
    Consumes (Parse.statementContent down) c (k :: n :: a :: ts) r
      fun x => ∃ e span, P e ∧ x = .typeDefinition n.value e span := by
  have hdefines : definesType (k :: n :: a :: ts ++ r) = true :=
    definesType_cons_iff.mpr ⟨word, named, sameLine⟩
  refine .of_look .beginsTypeDefinition ?_
  rintro _ rfl
  rw [if_pos hdefines]
  refine .cons .advance fun _ _ => .cons (.expect named) ?_
  rintro _ rfl
  refine .cons (.expect assignment) fun _ _ => .last definition fun e he => ?_
  exact .of_spanFrom fun span => .pure ⟨e, span, he, rfl⟩

theorem content {P : Expr Span → Prop} (noType : definesType (t :: ts ++ r) = false)
    (inner : Consumes (down.statementExpr false) c (t :: ts) r P) :
    Consumes (Parse.statementContent down) c (t :: ts) r fun x => ∃ e, P e ∧ x = .expression e := by
  refine .of_look .beginsTypeDefinition ?_
  rintro _ rfl
  rw [noType, if_neg Bool.false_ne_true]
  exact .map inner fun e he => ⟨e, he, rfl⟩

theorem semicolon (hkind : t.kind = .semicolon) :
    Consumes (Parse.terminator close) c [t] r fun _ => True := by
  refine .of_current rfl ?_
  rw [if_pos hkind]
  exact .cons .advance fun _ _ => .pure trivial

theorem noSemicolon (stop : endsStatement close r = true) :
    Consumes (Parse.terminator close) c [] r fun _ => True := by
  refine .of_look .sees_current fun next hnext => ?_
  have hkind : next.kind ≠ .semicolon ∧
      (next.kind = close ∨ next.kind = .eof ∨ next.newlineBefore = true) := by
    obtain ⟨-, heof⟩ | ⟨rest, hrest⟩ := hnext
    · simp [heof]
    · rw [List.nil_append] at hrest
      exact endsStatement_cons_iff.mp (hrest ▸ stop)
  rw [if_neg hkind.1, if_pos hkind.2]
  exact .pure trivial

theorem noStatement (stop : kind r = close) (hclose : close ≠ .semicolon) :
    Consumes (Parse.statements down close (bound + 1)) c [] r (· = []) := by
  unfold Parse.statements
  refine .of_standsAt ?_
  rw [List.nil_append, stop, if_neg (by simpa using hclose)]
  refine .of_standsAt ?_
  rw [List.nil_append, if_pos (decide_eq_true stop)]
  exact .pure rfl

theorem emptyStatement (hkind : t.kind = .semicolon)
    (more : Consumes (Parse.statements down close bound) c ts r Q) :
    Consumes (Parse.statements down close (bound + 1)) c (t :: ts) r Q := by
  unfold Parse.statements
  refine .of_standsAt ?_
  rw [List.cons_append, kind_cons, if_pos (decide_eq_true hkind)]
  exact .cons .advance fun _ _ => more

theorem statement (hstart : kind (ts ++ (us ++ vs) ++ r) ∈ expressionStart)
    (go : kind (ts ++ (us ++ vs) ++ r) ≠ close) (more : kind (ts ++ (us ++ vs) ++ r) ≠ .eof)
    (content : Consumes (Parse.statementContent down) c ts (us ++ (vs ++ r)) P)
    (terminator : Consumes (Parse.terminator close) c us (vs ++ r) fun _ => True)
    (rest : Consumes (Parse.statements down close bound) c vs r Q) :
    Consumes (Parse.statements down close (bound + 1)) c (ts ++ (us ++ vs)) r
      fun body => ∃ x xs, P x ∧ Q xs ∧ body = x :: xs := by
  have hsemicolon : kind (ts ++ (us ++ vs) ++ r) ≠ .semicolon := by
    intro h
    rw [h] at hstart
    exact absurd hstart (by decide)
  unfold Parse.statements
  refine .of_standsAt ?_
  rw [if_neg (by simpa using hsemicolon)]
  refine .of_standsAt ?_
  rw [if_neg (by simpa using go)]
  refine .of_standsAt ?_
  rw [if_neg (by simpa using more)]
  rw [← List.append_assoc]
  have hone : Consumes (Parse.statement down close) c (ts ++ us) (vs ++ r) P := by
    unfold Parse.statement
    rw [Watch.atStatement_idle, pure_bind]
    refine .of_currentKind (.of_record (.bind content fun x hx => ?_))
    exact .last terminator fun _ _ => .pure hx
  refine .bind hone fun x hx => .last rest fun xs hxs => ?_
  exact .pure ⟨x, xs, hx, hxs, rfl⟩

end Statements

end Consumes

/-- If statements are read from all the tokens of a source, the source is a module with them. -/
theorem parse_of_consumes {source : String} {settings : Settings} {ts : List Token} {stop : Token}
    {P : List (Stmt Span) → Prop} {levels : Nat}
    (hstream : TokenStream.ofSource source settings.file = ⟨ts, .ok stop⟩)
    (hlevels : ts.length < levels)
    (h : Consumes (Parse.statements (descent .standard settings.elseRequired levels) .eof levels)
      .outside ts [] P) : ∃ m, parse source settings = .ok m ∧ P m.body := by
  obtain ⟨s, hs, hready, houtside, hahead⟩ := ParseState.exists_start hstream
  obtain ⟨body, t, hbody, hP, -⟩ := h s (.of_ready hready []) houtside
    (by rw [hahead, List.append_nil])
  have hparse := parse_of_levels hs (hahead ▸ hlevels)
  rw [hbody] at hparse
  exact ⟨_, hparse, hP⟩

end SurfaceGrammar

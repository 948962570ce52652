import SurfaceGrammar.Parse.Grammar
import SurfaceGrammar.Proofs.Parse.Consumes

/-!
# Productions in front of given tokens

What a production needs of the productions that it calls. Each statement is about any number of
levels and about any property of the results, so it serves for a tree without marks as well as for
a single part of a tree with all its spans.

* `Consumes.number`, `Consumes.string`, `Consumes.char`, `Consumes.boolean`: literals.
* `Consumes.delimited`, `Consumes.lastElement`, `Consumes.moreElements`: elements between
  delimiters.
* `Consumes.array`, `Consumes.tuple`, `Consumes.call` and others: the forms with such elements.
* `Consumes.entry`, `Consumes.field`, `Consumes.parameter`: the elements that are no expressions.
* `Consumes.blockBody`, `Consumes.block`, `Consumes.function`: the forms with statements.
* `Consumes.plainWord`: words that are labels.
* `Consumes.chainMember`, `Consumes.chainSuffix`, `Consumes.chainCall`, `Consumes.binary`: what goes
  on with an expression.
* `Consumes.chainEnd`, `Consumes.operatorsEnd`, `Consumes.expr`: whole expressions.
-/

namespace SurfaceGrammar

open Lookahead

/-! ## What is decided by a look -/

namespace Looks

variable {c : Surroundings} {t : Token} {ts r : List Token}

/-- A curly bracket belongs to the word before it, unless a return type is being read. -/
theorem opensCurly : Looks Parse.opensCurly c (t :: ts) r
    (· = (!c.returnType && kind (ts ++ r) = .openCurly)) := by
  intro s hs hc hahead
  have htype : c.returnType = s.inReturnType := by rw [← hc]; rfl
  unfold Parse.opensCurly
  refine .of_eq (Parse.bind_get s _) ?_
  by_cases hreturn : s.inReturnType = true
  · rw [if_pos hreturn, htype, hreturn]
    exact .pure hs.toPlaced rfl
  · rw [if_neg hreturn, htype, Bool.eq_false_iff.mpr hreturn]
    refine peek.bind (fun next hnext => .pure ?_) s hs hc hahead
    rw [hnext.kind]
    rfl

end Looks

namespace Consumes

variable {β : Type} {down : Descent} {c : Surroundings} {t k o : Token} {ts us vs r : List Token}

/-! ## Literals -/

theorem number {x : Binary64} (hkind : t.kind = .number)
    (hvalue : (Decimal.read? t.value.toList).filter Binary64.isFinite = some x) :
    Consumes Parse.literal c [t] r (· = .literal (.number x) t.span) := by
  refine .of_current rfl ?_
  rw [hkind]
  dsimp only
  rw [hvalue]
  refine .cons .advance ?_
  rintro _ rfl
  exact .pure rfl

theorem string (hkind : t.kind = .string) :
    Consumes Parse.literal c [t] r (· = .literal (.string t.value) t.span) := by
  refine .of_current rfl ?_
  rw [hkind]
  refine .cons .advance ?_
  rintro _ rfl
  exact .pure rfl

theorem char {x : Char} (hkind : t.kind = .char) (hvalue : t.value.toList = [x]) :
    Consumes Parse.literal c [t] r (· = .literal (.char x) t.span) := by
  refine .of_current rfl ?_
  rw [hkind]
  dsimp only
  rw [hvalue]
  refine .cons .advance ?_
  rintro _ rfl
  exact .pure rfl

theorem boolean (value : Bool) :
    Consumes (Parse.boolean value) c [t] r (· = .literal (.boolean value) t.span) := by
  refine .cons .advance ?_
  rintro _ rfl
  exact .pure rfl

/-! ## Delimited elements -/

section Delimited

variable {element : Parse β} {close : TokenKind} {bound : Nat} {afterComma : Bool}
  {P : β → Prop} {Q : List β × Bool → Prop}

theorem noElement (stop : kind r = close) :
    Consumes (Parse.elements close element (bound + 1) afterComma) c [] r
      (· = ([], afterComma)) := by
  unfold Parse.elements
  refine .of_standsAt ?_
  rw [List.nil_append, if_pos (decide_eq_true stop)]
  exact .pure rfl

theorem lastElement (go : kind (ts ++ r) ≠ close) (inner : Consumes element c ts r P)
    (stop : kind r ≠ .comma) :
    Consumes (Parse.elements close element (bound + 1) afterComma) c ts r
      fun xs => ∃ x, P x ∧ xs = ([x], false) := by
  unfold Parse.elements
  refine .of_standsAt ?_
  rw [if_neg (by simpa using go)]
  refine .last inner fun x hx => .of_standsAt ?_
  rw [List.nil_append, if_neg (by simpa using stop)]
  exact .pure ⟨x, hx, rfl⟩

theorem moreElements (afterComma : Bool) (go : kind (ts ++ o :: (us ++ r)) ≠ close)
    (inner : Consumes element c ts (o :: (us ++ r)) P) (separator : o.kind = .comma)
    (more : Consumes (Parse.elements close element bound true) c us r Q) :
    Consumes (Parse.elements close element (bound + 1) afterComma) c (ts ++ o :: us) r
      fun xs => ∃ x rest, P x ∧ Q rest ∧ xs = (x :: rest.1, rest.2) := by
  unfold Parse.elements
  refine .of_standsAt ?_
  rw [if_neg (by simpa using go)]
  refine .bind inner fun x hx => .of_standsAt ?_
  rw [List.cons_append, kind_cons, if_pos (decide_eq_true separator)]
  refine .cons .advance fun _ _ => .last more fun rest hrest => ?_
  exact .pure ⟨x, rest, hx, hrest, rfl⟩

/-- Between the delimiters the elements are read in another context, which is restored before the
closing delimiter is passed. -/
theorem delimited
    (inner : Consumes (Parse.elements close element bound false) .inside ts (k :: r) Q)
    (closing : k.kind = close) :
    Consumes (Parse.delimited bound close element) c (ts ++ [k]) r
      fun list => Q (list.elements, list.trailingComma) ∧ list.closing = k := by
  intro s hs hc hahead
  rw [List.append_assoc, List.singleton_append] at hahead
  have hready : ParseState.ReadyFor
      { s with groupDepth := s.groupDepth + 1, inReturnType := false } (k :: r) :=
    (hs.append [k]).congr rfl rfl
  have hinside : ParseState.surroundings
      { s with groupDepth := s.groupDepth + 1, inReturnType := false } = .inside := by
    simp [ParseState.surroundings, Surroundings.inside]
  obtain ⟨⟨xs, comma⟩, s₁, helements, hxs, hpass⟩ := inner _ hready hinside hahead
  have hdepth : s₁.groupDepth - 1 = s.groupDepth := by rw [hpass.groupDepth]; rfl
  have hwithin : s.Passes ts
      { s₁ with groupDepth := s₁.groupDepth - 1, inReturnType := s.inReturnType } :=
    hpass.restore rfl rfl rfl rfl hdepth rfl
  obtain ⟨s₂, hexpect, hclosing⟩ := Parse.exists_expectOr [.comma, close] (hwithin.readyFor hs)
    (hwithin.ahead_eq hahead) closing
  refine ⟨⟨xs, comma, k⟩, s₂, ?_, ⟨hxs, rfl⟩, hwithin.trans hclosing⟩
  unfold Parse.delimited Parse.watchedDelimited
  rw [Parse.bind_enterGroup, Parse.bind_setInReturnType, Parse.bind_of_ok helements]
  dsimp only
  rw [Parse.bind_atExit, Parse.bind_exitGroup, Parse.bind_setInReturnType,
    Parse.bind_of_ok hexpect]
  rfl

end Delimited

section Lists

variable {P : Parse.Delimited (Expr Span) → Prop}

theorem array (opening : o.kind = .openBracket)
    (inner : Consumes (Parse.delimited down.bound .closeBracket (down.expr .default)) c ts r P) :
    Consumes (Parse.array down) c (o :: ts) r fun e => ∃ list, P list ∧
      e = .sequence .array list.elements ⟨o.span.start, list.closing.span.stop⟩ := by
  refine .cons (.expect opening) ?_
  rintro _ rfl
  exact .last inner fun list hlist => .pure ⟨list, hlist, rfl⟩

/-- What stands between parentheses is a tuple, unless it is one element without a comma. -/
theorem tuple (opening : o.kind = .openParen)
    (inner : Consumes (Parse.delimited down.bound .closeParen (down.expr .default)) c ts r P)
    (single : ∀ list, P list → list.elements.length = 1 → list.trailingComma = true) :
    Consumes (Parse.tuple down) c (o :: ts) r fun e => ∃ list, P list ∧
      e = .sequence .tuple list.elements ⟨o.span.start, list.closing.span.stop⟩ := by
  refine .cons (.expect opening) ?_
  rintro _ rfl
  refine .last inner ?_
  rintro ⟨elements, comma, closing⟩ hlist
  have hsingle := single _ hlist
  match elements, comma, hsingle with
  | [], _, _ => exact .pure ⟨_, hlist, rfl⟩
  | [_], true, _ => exact .pure ⟨_, hlist, rfl⟩
  | [_], false, hsingle => cases hsingle rfl
  | _ :: _ :: _, _, _ => exact .pure ⟨_, hlist, rfl⟩

/-- One element without a comma between parentheses is the element. -/
theorem grouping {Q : Expr Span → Prop} (opening : o.kind = .openParen)
    (inner : Consumes (Parse.delimited down.bound .closeParen (down.expr .default)) c ts r
      fun list => ∃ e, Q e ∧ list.elements = [e] ∧ list.trailingComma = false) :
    Consumes (Parse.tuple down) c (o :: ts) r Q := by
  refine .cons (.expect opening) fun _ _ => .last inner ?_
  rintro ⟨elements, comma, closing⟩ ⟨e, he, rfl, rfl⟩
  exact .pure he

theorem call {callee : Expr Span} (opening : o.kind = .openParen)
    (inner : Consumes (Parse.delimited down.bound .closeParen (down.expr .default)) c ts r P) :
    Consumes (Parse.call down callee) c (o :: ts) r fun e => ∃ list, P list ∧
      e = .call callee list.elements ⟨callee.mark.start, list.closing.span.stop⟩ :=
  .cons (.expect opening) fun _ _ => .last inner fun list hlist => .pure ⟨list, hlist, rfl⟩

theorem set (word : t.kind = .identifier) (opening : o.kind = .openCurly)
    (inner : Consumes (Parse.delimited down.bound .closeCurly (down.expr .default)) c ts r P) :
    Consumes (Parse.set down) c (t :: o :: ts) r fun e => ∃ list, P list ∧
      e = .sequence .set list.elements ⟨t.span.start, list.closing.span.stop⟩ := by
  refine .cons (.expect word) ?_
  rintro _ rfl
  refine .cons (.expect opening) fun _ _ => .last inner fun list hlist => ?_
  exact .pure ⟨list, hlist, rfl⟩

theorem mapping {P : Parse.Delimited (Entry Span) → Prop} (word : t.kind = .identifier)
    (opening : o.kind = .openCurly)
    (inner : Consumes (Parse.delimited down.bound .closeCurly (Parse.entry down)) c ts r P) :
    Consumes (Parse.mapping down) c (t :: o :: ts) r fun e => ∃ list, P list ∧
      e = .mapping list.elements ⟨t.span.start, list.closing.span.stop⟩ := by
  refine .cons (.expect word) ?_
  rintro _ rfl
  refine .cons (.expect opening) fun _ _ => .last inner fun list hlist => ?_
  exact .pure ⟨list, hlist, rfl⟩

theorem object {P : Parse.Delimited (Field Span) → Prop} (opening : o.kind = .openCurly)
    (inner : Consumes (Parse.delimited down.bound .closeCurly (Parse.field down)) c ts r P) :
    Consumes (Parse.object down) c (o :: ts) r fun e => ∃ list, P list ∧
      e = .object list.elements ⟨o.span.start, list.closing.span.stop⟩ := by
  refine .cons (.expect opening) ?_
  rintro _ rfl
  exact .last inner fun list hlist => .pure ⟨list, hlist, rfl⟩

end Lists

section Pairs

variable {P Q : Expr Span → Prop}

theorem entry (key : Consumes (down.expr .default) c ts (o :: (us ++ r)) P)
    (colon : o.kind = .colon) (value : Consumes (down.expr .default) c us r Q) :
    Consumes (Parse.entry down) c (ts ++ o :: us) r fun x => ∃ key value, P key ∧ Q value ∧
      x = ⟨key, value, key.mark.join value.mark⟩ := by
  refine .bind key fun key hkey => .cons (.expect colon) fun _ _ => ?_
  exact .last value fun value hvalue => .pure ⟨key, value, hkey, hvalue, rfl⟩

theorem field (label : t.kind = .identifier) (colon : o.kind = .colon)
    (value : Consumes (down.expr .default) c us r Q) :
    Consumes (Parse.field down) c (t :: o :: us) r fun x => ∃ value, Q value ∧
      x = ⟨t.value, value, t.span.join value.mark⟩ := by
  refine .cons (.expect label) ?_
  rintro _ rfl
  refine .cons (.expect colon) fun _ _ => .last value fun value hvalue => ?_
  exact .pure ⟨value, hvalue, rfl⟩

end Pairs

/-! ## Words that open something -/

/-- A word that opens a block, a set or a map does so before a curly bracket that belongs to it,
and else is a plain label. -/
theorem opener {production : Parse (Expr Span)} {P : Expr Span → Prop} (opens : Bool)
    (hopens : (!c.returnType && kind (ts ++ r) = .openCurly) = opens)
    (h : Consumes (if opens then production else Parse.plainLabel) c (t :: ts) r P) :
    Consumes (do if ← Parse.opensCurly then production else Parse.plainLabel) c (t :: ts) r P := by
  refine of_look .opensCurly ?_
  rintro _ rfl
  rwa [hopens]

theorem plainLabel (hkind : t.kind = .identifier) :
    Consumes Parse.plainLabel c [t] r (· = .label t.value t.span) := by
  refine .cons (.expect hkind) ?_
  rintro _ rfl
  exact .pure rfl

/-- A word that is a plain label there. -/
theorem plainWord (plain : Lookahead.plainLabel c t r = true) :
    Consumes (Parse.label down) c [t] r (· = .label t.value t.span) := by
  have hkind : t.kind = .identifier := by
    rw [Lookahead.plainLabel, Bool.and_eq_true] at plain
    exact of_decide_eq_true plain.1
  have hopener (production : Parse (Expr Span))
      (hplain : (c.returnType || kind r ≠ .openCurly) = true) :
      Consumes (do if ← Parse.opensCurly then production else Parse.plainLabel) c [t] r
        (· = .label t.value t.span) := by
    refine .opener false ?_ (.plainLabel hkind)
    rw [List.nil_append]
    revert hplain
    cases c.returnType <;> simp
  refine .of_current rfl ?_
  rw [Lookahead.plainLabel, hkind, decide_eq_true rfl, Bool.true_and] at plain
  split at plain
  case h_7 => cases plain
  case h_1 | h_2 =>
    rename_i hword
    rw [hword]
    exact .plainLabel hkind
  all_goals
    rename_i hword
    rw [hword]
    exact hopener _ plain

/-! ## Blocks and functions -/

section Statements

variable {P : List (Stmt Span) → Prop}

/-- The depth is restored after a block, so that the block leaves the context as it was. -/
theorem blockBody (opening : o.kind = .openCurly)
    (inner : Consumes (Parse.statements down .closeCurly down.bound) c.block ts (k :: r) P)
    (closing : k.kind = .closeCurly) :
    Consumes (Parse.blockBody down) c (o :: (ts ++ [k])) r P := by
  intro s hs hc hahead
  simp only [List.cons_append, List.append_assoc, List.nil_append] at hahead
  have hafter : s.ReadyFor (k :: r) := hs.append [k]
  obtain ⟨s₁, hopen, hpass⟩ := Parse.exists_expectOr [.openCurly] (hafter.append ts) hahead
    opening
  refine .cons ⟨o, s₁, hopen, rfl, hpass⟩ fun _ s₁ _ hpass => ?_
  have hahead₁ := hpass.ahead_eq hahead
  have hready : ParseState.ReadyFor { s₁ with groupDepth := 0 } (k :: r) :=
    (hpass.readyFor hafter).congr rfl rfl
  have hblock : ParseState.surroundings { s₁ with groupDepth := 0 } = c.block := by
    rw [← hc, ← hpass.surroundings]
    rfl
  obtain ⟨b, s₂, hstatements, hb, hpass₂⟩ := inner _ hready hblock hahead₁
  have hwithin : s₁.Passes ts { s₂ with groupDepth := s₁.groupDepth } :=
    hpass₂.restore rfl rfl rfl rfl rfl hpass₂.inReturnType
  obtain ⟨s₃, hexpect, hclosing⟩ := Parse.exists_expectOr [.closeCurly]
    (hwithin.readyFor (hpass.readyFor hs)) (hwithin.ahead_eq hahead₁) closing
  have hall := hwithin.trans hclosing
  refine ⟨b, { s₃ with events := s₃.events.push (.blockBody b.length) }, ?_, hb,
    hall.restore rfl rfl rfl rfl hall.groupDepth hall.inReturnType⟩
  rw [Parse.bind_enterBlock, Parse.bind_of_ok (Parse.exitBlock_of_ok s₁.groupDepth hstatements),
    Parse.expect, Parse.bind_of_ok hexpect]
  rfl

theorem block {kind : BlockKind} (word : k.kind = .identifier)
    (inner : Consumes (Parse.blockBody down) c ts r P) :
    Consumes (Parse.block down kind) c (k :: ts) r
      fun e => ∃ body span, P body ∧ e = .block kind body span :=
  .of_record (.cons (.expect word) fun _ _ => .last inner fun body hbody =>
    .of_spanFrom fun span => .pure ⟨body, span, hbody, rfl⟩)

end Statements

/-- The name of a function, or nothing. -/
theorem functionName {name : Option Token} (named : ∀ n ∈ name, n.kind = .identifier)
    (stop : kind r ≠ .identifier) :
    Consumes Parse.functionName c name.toList r (· = name.map Token.value) := by
  refine .of_standsAt ?_
  cases name with
  | none =>
    rw [Option.toList_none, List.nil_append, if_neg (by simpa using stop)]
    exact .pure rfl
  | some n =>
    rw [Option.toList_some, List.cons_append, kind_cons,
      if_pos (decide_eq_true (named n rfl))]
    refine .cons .advance ?_
    rintro _ rfl
    exact .pure rfl

/-- The type and the body of a function are read in surroundings of their own. -/
theorem typeAndBody {f : Option (Expr Span) → Body Span → Parse (Expr Span)}
    {P : Option (Expr Span) → Prop} {Q : Body Span → Prop} {R : Expr Span → Prop}
    (returnType : Consumes (Parse.typeAfterColon down) (c.typing true) ts (us ++ r) P)
    (inner : ∀ typed, Consumes (Parse.functionBody down typed) (c.typing false) us r Q)
    (hf : ∀ o b, P o → Q b → Consumes (f o b) c [] r R) :
    Consumes (do
      let outer ← Parse.setInReturnType true
      let o ← Parse.typeAfterColon down
      let _ ← Parse.setInReturnType false
      let b ← Parse.functionBody down o.isSome
      let _ ← Parse.setInReturnType outer
      f o b) c (ts ++ us) r R := by
  intro s hs hc hahead
  rw [List.append_assoc] at hahead
  have hready : ParseState.ReadyFor { s with inReturnType := true } (us ++ r) :=
    (hs.append us).congr rfl rfl
  have htyped : ParseState.surroundings { s with inReturnType := true } = c.typing true := by
    rw [← hc]
    rfl
  obtain ⟨o, s₁, ho, htype, hpass⟩ := returnType _ hready htyped hahead
  have hwithin : s.Passes ts { s₁ with inReturnType := s.inReturnType } :=
    hpass.restore rfl rfl rfl rfl hpass.groupDepth rfl
  have hready₁ : ParseState.ReadyFor { s₁ with inReturnType := false } r :=
    (hwithin.readyFor hs).congr rfl rfl
  have huntyped : ParseState.surroundings { s₁ with inReturnType := false } = c.typing false := by
    rw [← hc, ← hwithin.surroundings]
    rfl
  have hahead₁ := hwithin.ahead_eq hahead
  obtain ⟨b, s₂, hb, hbody, hpass₂⟩ := inner o.isSome _ hready₁ huntyped hahead₁
  have hwithin₂ : ParseState.Passes { s₁ with inReturnType := s.inReturnType } us
      { s₂ with inReturnType := s.inReturnType } :=
    hpass₂.restore rfl rfl rfl rfl hpass₂.groupDepth rfl
  have hall := hwithin.trans hwithin₂
  obtain ⟨e, s₃, he, hR, hpass₃⟩ := hf o b htype hbody _ (hall.readyFor hs)
    (hall.surroundings.trans hc) (hwithin₂.ahead_eq hahead₁)
  refine ⟨e, s₃, ?_, hR, by simpa using hall.trans hpass₃⟩
  rw [Parse.bind_setInReturnType, Parse.bind_of_ok ho, Parse.bind_setInReturnType,
    Parse.bind_of_ok hb, Parse.bind_setInReturnType]
  exact he

theorem function (name : Option Token) {P : Parse.Delimited (Parameter Span) → Prop}
    {Q : Option (Expr Span) → Prop} {R : Body Span → Prop} (word : k.kind = .identifier)
    (named : ∀ n ∈ name, n.kind = .identifier) (opening : o.kind = .openParen)
    (parameters : Consumes (Parse.delimited down.bound .closeParen (Parse.parameter down)) c ts
      (us ++ (vs ++ r)) P)
    (returnType : Consumes (Parse.typeAfterColon down) (c.typing true) us (vs ++ r) Q)
    (inner : ∀ typed, Consumes (Parse.functionBody down typed) (c.typing false) vs r R) :
    Consumes (Parse.function down) c (k :: (name.toList ++ o :: (ts ++ (us ++ vs)))) r
      fun e => ∃ list type body span, P list ∧ Q type ∧ R body ∧
        e = .function (name.map Token.value) list.elements type body span := by
  refine .of_currentKind (.of_record (.cons (.expect word) fun _ _ => ?_))
  refine .bind (functionName named (by simp [opening])) ?_
  rintro _ rfl
  refine .cons (.expectOr _ opening) fun _ _ => ?_
  refine .bind (by rwa [List.append_assoc]) fun list hlist => ?_
  refine typeAndBody returnType inner fun type body htype hbody => ?_
  exact .of_spanFrom fun span => .pure ⟨list, type, body, span, hlist, htype, hbody, rfl⟩

theorem typeAbsent (absent : kind r ≠ .colon) :
    Consumes (Parse.typeAfterColon down) c [] r (· = none) := by
  refine .of_standsAt ?_
  rw [List.nil_append, if_neg (by simpa using absent)]
  exact .pure rfl

theorem typePresent {P : Expr Span → Prop} (colon : t.kind = .colon)
    (inner : Consumes (down.expr .default) c ts r P) :
    Consumes (Parse.typeAfterColon down) c (t :: ts) r fun type => ∃ e, P e ∧ type = some e := by
  refine .of_standsAt ?_
  rw [List.cons_append, kind_cons, if_pos (decide_eq_true colon)]
  exact .cons .advance fun _ _ => .last inner fun e he => .pure ⟨e, he, rfl⟩

theorem parameter {P : Option (Expr Span) → Prop} (label : t.kind = .identifier)
    (type : Consumes (Parse.typeAfterColon down) c ts r P) :
    Consumes (Parse.parameter down) c (t :: ts) r fun x => ∃ type span, P type ∧
      x = ⟨t.value, type, span⟩ := by
  refine .cons (.expect label) ?_
  rintro _ rfl
  exact .last type fun type htype => .of_spanFrom fun span => .pure ⟨type, span, htype, rfl⟩

theorem arrowBody {typed : Bool} {P : Expr Span → Prop} (arrow : t.kind = .arrow)
    (value : Consumes (down.statementExpr true) c ts r P) :
    Consumes (Parse.functionBody down typed) c (t :: ts) r fun b => ∃ e, P e ∧ b = .arrow e := by
  refine .of_currentKind ?_
  rw [List.cons_append, kind_cons, arrow]
  exact .cons .advance fun _ _ => .map value fun e he => ⟨e, he, rfl⟩

theorem statementBody {typed : Bool} {P : List (Stmt Span) → Prop}
    (opening : kind (ts ++ r) = .openCurly) (inner : Consumes (Parse.blockBody down) c ts r P) :
    Consumes (Parse.functionBody down typed) c ts r fun b => ∃ body, P body ∧ b = .block body := by
  refine .of_currentKind ?_
  rw [opening]
  exact .map inner fun body hbody => ⟨body, hbody, rfl⟩

/-! ## Whole expressions -/

section Expressions

variable {bound : Nat} {power : Power} {first left : Expr Span} {P Q R : Expr Span → Prop}
  {n : Token}

theorem chainEnd (stop : endsChain c r = true) :
    Consumes (Parse.suffixChain down (bound + 1) first) c [] r (· = first) := by
  unfold Parse.suffixChain
  refine .of_look .breaks fun b hbreaks => ?_
  cases b with
  | true => exact .pure rfl
  | false =>
    rw [if_neg Bool.false_ne_true]
    refine .of_currentKind ?_
    rw [List.nil_append] at hbreaks ⊢
    rw [endsChain, hbreaks rfl, Bool.false_or] at stop
    cases hkind : kind r
    case openParen | dot | dollar | hash | question =>
      rw [hkind] at stop
      cases stop
    all_goals exact .pure rfl

theorem chainCall (sameLine : breaks c [o] = false) (opening : o.kind = .openParen)
    (inner : Consumes (Parse.call down first) c (o :: ts) (us ++ r) P)
    (more : ∀ e, P e → Consumes (Parse.suffixChain down bound e) c us r Q) :
    Consumes (Parse.suffixChain down (bound + 1) first) c (o :: (ts ++ us)) r Q := by
  unfold Parse.suffixChain
  refine .of_atLineBreak (by rw [List.cons_append]) ?_
  rw [sameLine, if_neg (by decide)]
  refine .of_currentKind ?_
  rw [List.cons_append, kind_cons, opening]
  exact .bind inner more

theorem member (point : o.kind = .dot) (field : n.kind = .identifier) :
    Consumes (Parse.member first) c [o, n] r
      (· = .member first n.value ⟨first.mark.start, n.span.stop⟩) := by
  refine .cons (.expect point) fun _ _ => .cons (.expect field) ?_
  rintro _ rfl
  exact .pure rfl

theorem suffix {operator : SuffixOperator}
    (symbol : SuffixOperator.ofKind? o.kind = some operator) :
    Consumes (Parse.suffix first) c [o] r
      (· = .suffix first operator ⟨first.mark.start, o.span.stop⟩) := by
  refine .of_currentKind ?_
  rw [List.singleton_append, kind_cons, symbol]
  refine .cons .advance ?_
  rintro _ rfl
  exact .pure rfl

/-- A member of an expression, and what goes on behind it. -/
theorem chainMember (sameLine : breaks c [o] = false) (point : o.kind = .dot)
    (field : Parse.isField n = true)
    (more : Consumes (Parse.suffixChain down bound
      (.member first n.value ⟨first.mark.start, n.span.stop⟩)) c us r Q) :
    Consumes (Parse.suffixChain down (bound + 1) first) c (o :: n :: us) r Q := by
  have hkind : n.kind = .identifier := by
    rw [Parse.isField, Bool.and_eq_true, Bool.and_eq_true] at field
    exact of_decide_eq_true field.1.1
  have hstep : Consumes (Parse.afterPoint first) c [o, n] (us ++ r)
      (· = .member first n.value ⟨first.mark.start, n.span.stop⟩) := by
    refine .of_peek fun next hnext => ?_
    have hnext' : next = n := by
      obtain ⟨hnil, -⟩ | ⟨rest, hrest⟩ := hnext
      · cases hnil
      · cases hrest
        rfl
    rw [hnext', if_pos field]
    exact .member point hkind
  unfold Parse.suffixChain
  refine .of_atLineBreak rfl ?_
  rw [sameLine, if_neg (by decide)]
  refine .of_currentKind ?_
  rw [List.cons_append, kind_cons, point]
  show Consumes _ c ([o, n] ++ us) r Q
  refine .bind hstep ?_
  rintro _ rfl
  exact more

/-- A suffix of an expression, and what goes on behind it. -/
theorem chainSuffix {operator : SuffixOperator} (sameLine : breaks c [o] = false)
    (symbol : SuffixOperator.ofKind? o.kind = some operator)
    (noField : o.kind = .dot → isField (us ++ r) = false)
    (more : Consumes (Parse.suffixChain down bound
      (.suffix first operator ⟨first.mark.start, o.span.stop⟩)) c us r Q) :
    Consumes (Parse.suffixChain down (bound + 1) first) c (o :: us) r Q := by
  have hstep : Consumes (Parse.suffix first) c [o] (us ++ r)
      (· = .suffix first operator ⟨first.mark.start, o.span.stop⟩) := .suffix symbol
  have hpoint (hdot : o.kind = .dot) : Consumes (Parse.afterPoint first) c [o] (us ++ r)
      (· = .suffix first operator ⟨first.mark.start, o.span.stop⟩) := by
    refine .of_peek fun next hnext => ?_
    rw [← hnext.isField, List.nil_append, noField hdot, if_neg Bool.false_ne_true]
    exact hstep
  unfold Parse.suffixChain
  refine .of_atLineBreak rfl ?_
  rw [sameLine, if_neg (by decide)]
  refine .of_currentKind ?_
  rw [List.cons_append, kind_cons]
  cases hkind : o.kind
  case dot =>
    refine .cons (hpoint hkind) ?_
    rintro _ rfl
    exact more
  case dollar | hash | question =>
    refine .cons hstep ?_
    rintro _ rfl
    exact more
  all_goals
    rw [hkind] at symbol
    cases symbol

theorem operatorsEnd (hrules : down.rules = .standard) (stop : endsOperators c power r = true) :
    Consumes (Parse.operators down power (bound + 1) left) c [] r (· = left) := by
  unfold Parse.operators
  refine .of_look .breaks fun b hbreaks => ?_
  cases b with
  | true => exact .pure rfl
  | false =>
    rw [if_neg Bool.false_ne_true]
    refine .of_currentKind ?_
    rw [List.nil_append] at hbreaks ⊢
    rw [endsOperators, hbreaks rfl, Bool.false_or] at stop
    simp only [hrules, Rules.standard]
    cases hsymbol : BinaryOperator.ofKind? (kind r) with
    | none => exact .pure rfl
    | some operator =>
      have hlevel : operator.level ≤ power := by simpa [hsymbol] using stop
      simp only [Option.map_some]
      rw [if_pos hlevel]
      exact .pure rfl

/-- A binary operator with its right operand, and what goes on behind it. -/
theorem binary {power : Power} {left : Expr Span} {operator : BinaryOperator}
    (hrules : down.rules = .standard) (sameLine : breaks c [o] = false)
    (symbol : BinaryOperator.ofKind? o.kind = some operator) (tighter : ¬operator.level ≤ power)
    (operand : Consumes (down.expr operator.level) c ts (us ++ r) P)
    (more : ∀ right, P right → Consumes (Parse.operators down power bound
      (.binary left operator right (left.mark.join right.mark))) c us r Q) :
    Consumes (Parse.operators down power (bound + 1) left) c (o :: (ts ++ us)) r Q := by
  have hstep : Consumes (Parse.binary down left operator.level) c (o :: ts) (us ++ r)
      fun e => ∃ right, P right ∧ e = .binary left operator right (left.mark.join right.mark) := by
    refine .cons .advance ?_
    rintro _ rfl
    rw [symbol]
    exact .last operand fun right hright => .pure ⟨right, hright, rfl⟩
  unfold Parse.operators
  refine .of_atLineBreak rfl ?_
  rw [sameLine, if_neg (by decide)]
  refine .of_currentKind ?_
  simp only [hrules, Rules.standard, List.cons_append, kind_cons, symbol, Option.map_some]
  rw [if_neg tighter]
  show Consumes _ c (o :: ts ++ us) r Q
  refine .bind hstep ?_
  rintro _ ⟨right, hright, rfl⟩
  exact more right hright

theorem expr (rule : PrimaryRule)
    (hrule : down.rules.primary? (kind (ts ++ (us ++ vs) ++ r)) = some rule)
    (head : Consumes (Parse.primary down rule) c ts (us ++ (vs ++ r)) P)
    (chain : ∀ e, P e → Consumes (Parse.suffixChain down down.bound e) c us (vs ++ r) Q)
    (operators : ∀ e, Q e → Consumes (Parse.operators down power down.bound e) c vs r R) :
    Consumes (Parse.expr down power) c (ts ++ (us ++ vs)) r R := by
  refine .of_currentKind (.of_record ?_)
  rw [hrule]
  refine .bind (by rwa [List.append_assoc]) fun e he => ?_
  exact .bind (chain e he) operators

end Expressions

end Consumes

end SurfaceGrammar

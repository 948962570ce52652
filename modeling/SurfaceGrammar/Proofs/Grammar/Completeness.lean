import SurfaceGrammar.Proofs.Grammar.Clauses
import SurfaceGrammar.Proofs.Grammar.Leaves
import SurfaceGrammar.Proofs.Tree.Bare

/-!
# What the productions accept

Wherever the tokens ahead begin with a phrase, its production succeeds, passes the phrase and
gives its tree. A phrase with few leaves needs few levels and few rounds of each loop: every level
and every round passes a leaf.

* `Phrase.Accepted`: the production for a phrase passes its leaves and gives its tree.
* `Derives.accepted`: it does wherever the phrase is derived.
* `parse_of_derives`: a source is parsed if its tokens are derived.
-/

namespace SurfaceGrammar

open Lookahead

/-- The production for an element. -/
def Slot.production (down : Descent) : (slot : Slot) → Parse (slot.Tree Span)
  | .expr => down.expr .default
  | .entry => Parse.entry down
  | .field => Parse.field down
  | .parameter => Parse.parameter down

/-- The production for a phrase passes the leaves `w` in front of the tokens `r` and gives the tree
of the phrase. A production needs as many levels as the phrase has leaves, or one more if it goes
down a level before it passes a leaf. -/
def Phrase.Accepted (elseRequired : Bool) (c : Surroundings) (w : List Leaf) (r : List Token) :
    (p : Phrase) → p.Tree Unit → Prop
  | .primary, e => ∀ levels, w.length ≤ levels →
    ∃ rule, Rules.standardPrimary? (kind (words w ++ r)) = some rule ∧
      Consumes (Parse.primary (descent .standard elseRequired levels) rule) c (words w) r
        fun b => b.bare = e
  | .conditional valueRequired, e => ∀ levels, w.length ≤ levels →
    Consumes (Parse.conditional (descent .standard elseRequired levels) valueRequired) c (words w) r
      fun b => b.bare = e
  | .thenWord, _ => Consumes Parse.skipThen c (words w) r fun _ => True
  | .elseBranch valueRequired, o => ∀ levels start, w.length ≤ levels →
    Consumes (Parse.elseBranch (descent .standard elseRequired levels) valueRequired start) c
      (words w) r fun b => b.map Expr.bare = o
  | .declaration, e => ∀ levels, w.length ≤ levels →
    Consumes (Parse.declaration (descent .standard elseRequired levels)) c (words w) r
      fun b => b.bare = e
  | .declaredType, o => ∀ levels, w.length < levels →
    Consumes (Parse.declaredType (descent .standard elseRequired levels)) c (words w) r
      fun b => b.map Expr.bare = o
  | .update, e => ∀ levels, w.length ≤ levels →
    Consumes (Parse.update (descent .standard elseRequired levels)) c (words w) r
      fun b => b.bare = e
  | .functionBody, body => ∀ levels typed, w.length ≤ levels →
    Consumes (Parse.functionBody (descent .standard elseRequired levels) typed) c (words w) r
      fun b => b.bare = body
  | .typeAfterColon, o => ∀ levels, w.length ≤ levels →
    Consumes (Parse.typeAfterColon (descent .standard elseRequired levels)) c (words w) r
      fun b => b.map Expr.bare = o
  | .chain base, e => ∀ levels bound base', base'.bare = base → w.length < levels →
    w.length < bound →
    Consumes (Parse.suffixChain (descent .standard elseRequired levels) bound base') c (words w) r
      fun b => b.bare = e
  | .operators power left, e => ∀ levels bound left', left'.bare = left → w.length < levels →
    w.length < bound →
    Consumes (Parse.operators (descent .standard elseRequired levels) power bound left') c (words w)
      r fun b => b.bare = e
  | .expr power, e => ∀ levels, w.length ≤ levels →
    Consumes (Parse.expr (descent .standard elseRequired levels) power) c (words w) r
      fun b => b.bare = e
  | .statementExpr valueRequired, e => ∀ levels, w.length ≤ levels →
    Consumes (Parse.statementExpr (descent .standard elseRequired levels) valueRequired) c (words w)
      r fun b => b.bare = e
  | .element slot, x => ∀ levels, w.length < levels →
    Consumes (slot.production (descent .standard elseRequired levels)) c (words w) r
      fun b => slot.bare b = x
  | .elements slot close afterComma, xs => ∀ levels bound, w.length < levels → w.length < bound →
    Consumes (Parse.elements close (slot.production (descent .standard elseRequired levels)) bound
      afterComma) c (words w) r fun b => (b.1.map slot.bare, b.2) = xs
  | .delimited slot close, xs => ∀ levels, w.length ≤ levels →
    Consumes (Parse.delimited (descent .standard elseRequired levels).bound close
      (slot.production (descent .standard elseRequired levels))) c (words w) r
      fun b => (b.elements.map slot.bare, b.trailingComma) = xs
  | .content, x => ∀ levels, w.length < levels →
    Consumes (Parse.statementContent (descent .standard elseRequired levels)) c (words w) r
      fun b => b.bare = x
  | .terminator close, _ => Consumes (Parse.terminator close) c (words w) r fun _ => True
  | .statements close, body => ∀ levels bound, w.length < levels → w.length < bound →
    Consumes (Parse.statements (descent .standard elseRequired levels) close bound) c (words w) r
      fun b => b.map Stmt.bare = body
  | .blockBody, body => ∀ levels, w.length ≤ levels →
    Consumes (Parse.blockBody (descent .standard elseRequired levels)) c (words w) r
      fun b => b.map Stmt.bare = body

namespace Phrase.Accepted

variable {elseRequired : Bool} {c : Surroundings} {r : List Token} {t k n o a : Token}
  {u v w : List Leaf} {power : Power} {valueRequired : Bool} {e : Expr Unit}

/-- A call of an expression a level below. -/
theorem expr_below {levels : Nat} (h : Accepted elseRequired c w r (.expr power) e)
    (hlevels : w.length < levels) :
    Consumes ((descent .standard elseRequired levels).expr power) c (words w) r
      fun b => b.bare = e := by
  cases levels with
  | zero => omega
  | succ levels => exact h levels (by omega)

/-- A call of an expression in the place of a statement, a level below. -/
theorem statementExpr_below {levels : Nat}
    (h : Accepted elseRequired c w r (.statementExpr valueRequired) e)
    (hlevels : w.length < levels) :
    Consumes ((descent .standard elseRequired levels).statementExpr valueRequired) c (words w) r
      fun b => b.bare = e := by
  cases levels with
  | zero => omega
  | succ levels => exact h levels (by omega)

/-! ## Literals and labels -/

/-- A primary expression is accepted if the production is that the kind of its first token names. -/
theorem primary (rule : PrimaryRule) (hrule : Rules.standardPrimary? t.kind = some rule)
    (h : ∀ levels, u.length < levels →
      Consumes (Parse.primary (descent .standard elseRequired levels) rule) c (t :: words u) r
        fun b => b.bare = e) :
    Accepted elseRequired c (c.leaf t :: u) r .primary e :=
  fun levels hlevels => ⟨rule, hrule, h levels hlevels⟩

/-- An expression that begins with an identifier is accepted if the production for its word is. -/
theorem word (hkind : t.kind = .identifier)
    (h : ∀ levels, u.length < levels →
      Consumes (Parse.label (descent .standard elseRequired levels)) c (t :: words u) r
        fun b => b.bare = e) :
    Accepted elseRequired c (c.leaf t :: u) r .primary e :=
  primary .label (by rw [hkind]; rfl) h

theorem number {x : Binary64} (hkind : t.kind = .number)
    (hvalue : (Decimal.read? t.value.toList).filter Binary64.isFinite = some x) :
    Accepted elseRequired c [c.leaf t] r .primary (.literal (.number x) ()) :=
  primary .literal (by rw [hkind]; rfl) fun _ _ => (Consumes.number hkind hvalue).of_eq rfl

theorem string (hkind : t.kind = .string) :
    Accepted elseRequired c [c.leaf t] r .primary (.literal (.string t.value) ()) :=
  primary .literal (by rw [hkind]; rfl) fun _ _ => (Consumes.string hkind).of_eq rfl

theorem char {x : Char} (hkind : t.kind = .char) (hvalue : t.value.toList = [x]) :
    Accepted elseRequired c [c.leaf t] r .primary (.literal (.char x) ()) :=
  primary .literal (by rw [hkind]; rfl) fun _ _ => (Consumes.char hkind hvalue).of_eq rfl

theorem boolean {value : Bool} (hword : t.keyword? = some (.ofBool value)) :
    Accepted elseRequired c [c.leaf t] r .primary (.literal (.boolean value) ()) := by
  refine word (Token.kind_of_keyword? hword) fun levels _ => .of_current rfl ?_
  rw [hword]
  cases value
  all_goals exact (Consumes.boolean _).of_eq rfl

theorem label (hplain : Lookahead.plainLabel c t r = true) :
    Accepted elseRequired c [c.leaf t] r .primary (.label t.value ()) :=
  word (Token.kind_of_plainLabel hplain) fun _ _ => (Consumes.plainWord hplain).of_eq rfl

/-! ## Delimited lists -/

section Delimited

variable {slot : Slot} {close : TokenKind} {afterComma comma : Bool} {x : slot.Tree Unit}
  {xs : List (slot.Tree Unit)}

theorem noElement (stop : kind r = close) :
    Accepted elseRequired c [] r (.elements slot close afterComma) ([], afterComma) := by
  intro levels bound _ hbound
  obtain ⟨bound, rfl⟩ := Nat.exists_eq_succ_of_ne_zero (Nat.ne_of_gt hbound)
  exact (Consumes.noElement stop).of_eq rfl

theorem lastElement (go : kind (words w ++ r) ≠ close)
    (inner : Accepted elseRequired c w r (.element slot) x) (stop : kind r ≠ .comma) :
    Accepted elseRequired c w r (.elements slot close afterComma) ([x], false) := by
  intro levels bound hlevels hbound
  obtain ⟨bound, rfl⟩ := Nat.exists_eq_succ_of_ne_zero (Nat.ne_of_gt (Nat.zero_lt_of_lt hbound))
  refine (Consumes.lastElement go (inner levels hlevels) stop).mono ?_
  rintro _ ⟨y, rfl, rfl⟩
  rfl

theorem moreElements (go : kind (words v ++ o :: (words w ++ r)) ≠ close)
    (inner : Accepted elseRequired c v (o :: (words w ++ r)) (.element slot) x)
    (separator : o.kind = .comma)
    (more : Accepted elseRequired c w r (.elements slot close true) (xs, comma)) :
    Accepted elseRequired c (v ++ c.leaf o :: w) r (.elements slot close afterComma)
      (x :: xs, comma) := by
  intro levels bound hlevels hbound
  obtain ⟨bound, rfl⟩ := Nat.exists_eq_succ_of_ne_zero (Nat.ne_of_gt (Nat.zero_lt_of_lt hbound))
  rw [List.length_append, List.length_cons] at hlevels hbound
  rw [words_append, words_cons]
  refine (Consumes.moreElements afterComma go (inner levels (by omega)) separator
    (more levels bound (by omega) (by omega))).mono ?_
  rintro _ ⟨y, ys, rfl, hys, rfl⟩
  cases hys
  rfl

theorem delimited {es : List (slot.Tree Unit) × Bool}
    (inner : Accepted elseRequired .inside w (k :: r) (.elements slot close false) es)
    (closing : k.kind = close) :
    Accepted elseRequired c (w ++ [Surroundings.inside.leaf k]) r (.delimited slot close) es := by
  intro levels hlevels
  rw [List.length_append, List.length_singleton] at hlevels
  rw [words_append, bound_descent]
  exact (Consumes.delimited (inner levels levels (by omega) (by omega)) closing).mono
    fun list hlist => hlist.1

end Delimited

/-! ## Elements -/

theorem element (inner : Accepted elseRequired c w r (.expr .default) e) :
    Accepted elseRequired c w r (.element .expr) e :=
  fun _ hlevels => inner.expr_below hlevels

theorem entry {key value : Expr Unit}
    (inner : Accepted elseRequired c v (o :: (words w ++ r)) (.expr .default) key)
    (colon : o.kind = .colon) (valueInner : Accepted elseRequired c w r (.expr .default) value) :
    Accepted elseRequired c (v ++ c.leaf o :: w) r (.element .entry) ⟨key, value, ()⟩ := by
  intro levels hlevels
  rw [List.length_append, List.length_cons] at hlevels
  rw [words_append, words_cons]
  refine (Consumes.entry (inner.expr_below (by omega)) colon
    (valueInner.expr_below (by omega))).mono ?_
  rintro _ ⟨_, _, rfl, rfl, rfl⟩
  rfl

theorem field (named : n.kind = .identifier) (colon : o.kind = .colon)
    (inner : Accepted elseRequired c w r (.expr .default) e) :
    Accepted elseRequired c (c.leaf n :: c.leaf o :: w) r (.element .field)
      ⟨n.value, e, ()⟩ := by
  intro levels hlevels
  simp only [List.length_cons] at hlevels
  refine (Consumes.field named colon (inner.expr_below (by omega))).mono ?_
  rintro _ ⟨_, rfl, rfl⟩
  rfl

theorem typePresent (colon : t.kind = .colon)
    (type : Accepted elseRequired c w r (.expr .default) e) :
    Accepted elseRequired c (c.leaf t :: w) r .typeAfterColon (some e) := by
  intro levels hlevels
  refine (Consumes.typePresent colon (type.expr_below hlevels)).mono ?_
  rintro _ ⟨_, rfl, rfl⟩
  rfl

theorem typeAbsent (absent : kind r ≠ .colon) :
    Accepted elseRequired c [] r .typeAfterColon none :=
  fun _ _ => (Consumes.typeAbsent absent).of_eq rfl

theorem parameter {type : Option (Expr Unit)} (named : n.kind = .identifier)
    (inner : Accepted elseRequired c w r .typeAfterColon type) :
    Accepted elseRequired c (c.leaf n :: w) r (.element .parameter) ⟨n.value, type, ()⟩ := by
  intro levels hlevels
  rw [List.length_cons] at hlevels
  refine (Consumes.parameter named (inner levels (by omega))).mono ?_
  rintro _ ⟨_, _, rfl, rfl⟩
  rfl

/-! ## Delimited expressions -/

section Lists

variable {es : List (Expr Unit)} {comma : Bool}

theorem grouping (opening : o.kind = .openParen)
    (inner : Accepted elseRequired c w r (.delimited .expr .closeParen) ([e], false)) :
    Accepted elseRequired c (c.leaf o :: w) r .primary e := by
  refine primary (.sequence .tuple) (by rw [opening]; rfl) fun levels hlevels => ?_
  refine .grouping opening ((inner levels (Nat.le_of_lt hlevels)).mono ?_)
  rintro ⟨elements, comma, closing⟩ hlist
  simp only [Prod.mk.injEq, List.map_eq_cons_iff, List.map_eq_nil_iff] at hlist
  obtain ⟨⟨b, _, rfl, hb, rfl⟩, rfl⟩ := hlist
  exact ⟨b, hb, rfl, rfl⟩

theorem tuple (opening : o.kind = .openParen)
    (inner : Accepted elseRequired c w r (.delimited .expr .closeParen) (es, comma))
    (single : es.length = 1 → comma = true) :
    Accepted elseRequired c (c.leaf o :: w) r .primary (.sequence .tuple es ()) := by
  refine primary (.sequence .tuple) (by rw [opening]; rfl) fun levels hlevels => ?_
  refine (Consumes.tuple opening (inner levels (Nat.le_of_lt hlevels)) ?_).mono ?_
  · rintro list ⟨⟩ hlength
    exact single (by rwa [List.length_map])
  · rintro _ ⟨list, ⟨⟩, rfl⟩
    exact Expr.bare_sequence ..

theorem array (opening : o.kind = .openBracket)
    (inner : Accepted elseRequired c w r (.delimited .expr .closeBracket) (es, comma)) :
    Accepted elseRequired c (c.leaf o :: w) r .primary (.sequence .array es ()) := by
  refine primary (.sequence .array) (by rw [opening]; rfl) fun levels hlevels => ?_
  refine (Consumes.array opening (inner levels (Nat.le_of_lt hlevels))).mono ?_
  rintro _ ⟨list, ⟨⟩, rfl⟩
  exact Expr.bare_sequence ..

theorem object {fs : List (Field Unit)} (opening : o.kind = .openCurly)
    (inner : Accepted elseRequired c w r (.delimited .field .closeCurly) (fs, comma)) :
    Accepted elseRequired c (c.leaf o :: w) r .primary (.object fs ()) := by
  refine primary .object (by rw [opening]; rfl) fun levels hlevels => ?_
  refine (Consumes.object opening (inner levels (Nat.le_of_lt hlevels))).mono ?_
  rintro _ ⟨list, ⟨⟩, rfl⟩
  exact Expr.bare_object ..

theorem set (hword : k.keyword? = some .set) (plain : c.returnType = false)
    (opening : o.kind = .openCurly)
    (inner : Accepted elseRequired c w r (.delimited .expr .closeCurly) (es, comma)) :
    Accepted elseRequired c (c.leaf k :: c.leaf o :: w) r .primary (.sequence .set es ()) := by
  have hkind := Token.kind_of_keyword? hword
  refine word hkind fun levels hlevels => .of_current rfl ?_
  rw [List.length_cons] at hlevels
  rw [hword]
  refine .opener true (by simp [plain, opening]) ?_
  refine (Consumes.set hkind opening (inner levels (by omega))).mono ?_
  rintro _ ⟨list, ⟨⟩, rfl⟩
  exact Expr.bare_sequence ..

theorem mapping {es : List (Entry Unit)} (hword : k.keyword? = some .map)
    (plain : c.returnType = false) (opening : o.kind = .openCurly)
    (inner : Accepted elseRequired c w r (.delimited .entry .closeCurly) (es, comma)) :
    Accepted elseRequired c (c.leaf k :: c.leaf o :: w) r .primary (.mapping es ()) := by
  have hkind := Token.kind_of_keyword? hword
  refine word hkind fun levels hlevels => .of_current rfl ?_
  rw [List.length_cons] at hlevels
  rw [hword]
  refine .opener true (by simp [plain, opening]) ?_
  refine (Consumes.mapping hkind opening (inner levels (by omega))).mono ?_
  rintro _ ⟨list, ⟨⟩, rfl⟩
  exact Expr.bare_mapping ..

end Lists

/-! ## Statements and blocks -/

section Statements

variable {close : TokenKind} {x : Stmt Unit} {body : List (Stmt Unit)}

theorem typeDefinition (hword : k.isKeyword .type = true) (named : n.kind = .identifier)
    (sameLine : n.newlineBefore = false) (assignment : a.kind = .assignment)
    (definition : Accepted elseRequired c w r (.expr .default) e) :
    Accepted elseRequired c (c.leaf k :: c.leaf n :: c.leaf a :: w) r .content
      (.typeDefinition n.value e ()) := by
  intro levels hlevels
  simp only [List.length_cons] at hlevels
  refine (Consumes.typeDefinition hword named sameLine assignment
    (definition.expr_below (by omega))).mono ?_
  rintro _ ⟨_, _, rfl, rfl⟩
  rfl

theorem expression (noType : definesType (words (c.leaf t :: u) ++ r) = false)
    (inner : Accepted elseRequired c (c.leaf t :: u) r (.statementExpr false) e) :
    Accepted elseRequired c (c.leaf t :: u) r .content (.expression e) := by
  intro levels hlevels
  refine (Consumes.content noType (inner.statementExpr_below hlevels)).mono ?_
  rintro _ ⟨_, rfl, rfl⟩
  rfl

theorem semicolon (hkind : t.kind = .semicolon) :
    Accepted elseRequired c [c.leaf t] r (.terminator close) () :=
  Consumes.semicolon hkind

theorem noSemicolon (stop : endsStatement close r = true) :
    Accepted elseRequired c [] r (.terminator close) () :=
  Consumes.noSemicolon stop

theorem emptyStatement (hkind : t.kind = .semicolon)
    (more : Accepted elseRequired c w r (.statements close) body) :
    Accepted elseRequired c (c.leaf t :: w) r (.statements close) body := by
  intro levels bound hlevels hbound
  obtain ⟨bound, rfl⟩ := Nat.exists_eq_succ_of_ne_zero (Nat.ne_of_gt (Nat.zero_lt_of_lt hbound))
  rw [List.length_cons] at hlevels hbound
  exact Consumes.emptyStatement hkind (more levels bound (by omega) (by omega))

theorem noStatement (stop : kind r = close) (hclose : close ≠ .semicolon) :
    Accepted elseRequired c [] r (.statements close) [] := by
  intro levels bound _ hbound
  obtain ⟨bound, rfl⟩ := Nat.exists_eq_succ_of_ne_zero (Nat.ne_of_gt hbound)
  exact (Consumes.noStatement stop hclose).of_eq rfl

theorem statement (hpos : 0 < u.length)
    (hstart : kind (words u ++ (words v ++ (words w ++ r))) ∈ expressionStart)
    (go : kind (words u ++ (words v ++ (words w ++ r))) ≠ close)
    (more : kind (words u ++ (words v ++ (words w ++ r))) ≠ .eof)
    (content : Accepted elseRequired c u (words v ++ (words w ++ r)) .content x)
    (terminator : Accepted elseRequired c v (words w ++ r) (.terminator close) ())
    (rest : Accepted elseRequired c w r (.statements close) body) :
    Accepted elseRequired c (u ++ (v ++ w)) r (.statements close) (x :: body) := by
  intro levels bound hlevels hbound
  obtain ⟨bound, rfl⟩ := Nat.exists_eq_succ_of_ne_zero (Nat.ne_of_gt (Nat.zero_lt_of_lt hbound))
  rw [List.length_append, List.length_append] at hlevels hbound
  rw [words_append, words_append]
  have htokens : words u ++ (words v ++ words w) ++ r =
      words u ++ (words v ++ (words w ++ r)) := by
    rw [List.append_assoc, List.append_assoc]
  rw [← htokens] at hstart go more
  refine (Consumes.statement hstart go more (content levels (by omega)) terminator
    (rest levels bound (by omega) (by omega))).mono ?_
  rintro _ ⟨_, _, rfl, rfl, rfl⟩
  rfl

theorem blockBody (opening : o.kind = .openCurly)
    (inner : Accepted elseRequired c.block w (k :: r) (.statements .closeCurly) body)
    (closing : k.kind = .closeCurly) :
    Accepted elseRequired c (c.leaf o :: (w ++ [c.block.leaf k])) r .blockBody body := by
  intro levels hlevels
  rw [List.length_cons, List.length_append, List.length_singleton] at hlevels
  rw [words_cons, words_append]
  refine .blockBody opening ?_ closing
  rw [bound_descent]
  exact inner levels levels (by omega) (by omega)

/-! ## Functions, blocks and conditionals -/

theorem arrowBody (arrow : t.kind = .arrow)
    (value : Accepted elseRequired c w r (.statementExpr true) e) :
    Accepted elseRequired c (c.leaf t :: w) r .functionBody (.arrow e) := by
  intro levels typed hlevels
  refine (Consumes.arrowBody arrow (value.statementExpr_below hlevels)).mono ?_
  rintro _ ⟨_, rfl, rfl⟩
  rfl

theorem statementBody (opening : kind (words w ++ r) = .openCurly)
    (inner : Accepted elseRequired c w r .blockBody body) :
    Accepted elseRequired c w r .functionBody (.block body) := by
  intro levels typed hlevels
  refine (Consumes.statementBody opening (inner levels hlevels)).mono ?_
  rintro _ ⟨_, rfl, rfl⟩
  exact Body.bare_block ..

theorem function {name : Option Token} {wp wt wb : List Leaf} {ps : List (Parameter Unit)}
    {comma : Bool} {type : Option (Expr Unit)} {body : Body Unit}
    (hword : k.keyword? = some .fn) (named : ∀ n ∈ name, n.kind = .identifier)
    (opening : o.kind = .openParen)
    (parameters : Accepted elseRequired c wp (words wt ++ (words wb ++ r))
      (.delimited .parameter .closeParen) (ps, comma))
    (returnType : Accepted elseRequired (c.typing true) wt (words wb ++ r) .typeAfterColon type)
    (inner : Accepted elseRequired (c.typing false) wb r .functionBody body) :
    Accepted elseRequired c (c.leaf k :: (name.toList.map c.leaf ++ c.leaf o :: (wp ++ (wt ++ wb))))
      r .primary (.function (name.map Token.value) ps type body ()) := by
  have hkind := Token.kind_of_keyword? hword
  have hname : words (name.toList.map c.leaf) = name.toList := by simp [words, Function.comp_def]
  refine word hkind fun levels hlevels => .of_current rfl ?_
  simp only [List.length_append, List.length_cons] at hlevels
  rw [hword, words_append, hname, words_cons, words_append, words_append]
  refine (Consumes.function name hkind named opening (parameters levels (by omega))
    (returnType levels (by omega)) fun typed => inner levels typed (by omega)).mono ?_
  rintro _ ⟨list, _, _, span, ⟨⟩, rfl, rfl, rfl⟩
  exact Expr.bare_function ..

theorem block (kind : BlockKind) (hword : k.keyword? = some kind.keyword)
    (plain : c.returnType = false) (opening : o.kind = .openCurly)
    (inner : Accepted elseRequired c (c.leaf o :: w) r .blockBody body) :
    Accepted elseRequired c (c.leaf k :: c.leaf o :: w) r .primary (.block kind body ()) := by
  have hkind := Token.kind_of_keyword? hword
  refine word hkind fun levels hlevels => .of_current rfl ?_
  have hblock : Consumes (Parse.block (descent .standard elseRequired levels) kind) c
      (k :: o :: words w) r fun b => b.bare = .block kind body () := by
    refine (Consumes.block hkind (inner levels (Nat.le_of_lt hlevels))).mono ?_
    rintro _ ⟨_, span, rfl, rfl⟩
    exact Expr.bare_block ..
  rw [hword]
  cases kind
  all_goals exact .opener true (by simp [plain, opening]) hblock

end Statements

section Conditionals

variable {wc ws wt we : List Leaf} {e₁ e₂ : Expr Unit} {otherwise : Option (Expr Unit)}

theorem thenPresent (hword : t.isKeyword .then = true) :
    Accepted elseRequired c [c.leaf t] r .thenWord () :=
  Consumes.thenPresent hword

theorem thenAbsent (absent : isKeyword .then r = false) :
    Accepted elseRequired c [] r .thenWord () :=
  Consumes.thenAbsent absent

theorem elsePresent (hword : t.isKeyword .else = true)
    (branch : Accepted elseRequired c w r (.statementExpr valueRequired) e) :
    Accepted elseRequired c (c.leaf t :: w) r (.elseBranch valueRequired) (some e) := by
  intro levels start hlevels
  refine (Consumes.elsePresent hword (branch.statementExpr_below hlevels)).mono ?_
  rintro _ ⟨_, rfl, rfl⟩
  rfl

theorem elseAbsent (absent : isKeyword .else r = false)
    (allowed : (valueRequired && elseRequired) = false) :
    Accepted elseRequired c [] r (.elseBranch valueRequired) none :=
  fun levels _ _ => (Consumes.elseAbsent absent (by rwa [elseRequired_descent])).of_eq rfl

theorem conditional
    (condition : Accepted elseRequired c wc (words ws ++ (words wt ++ (words we ++ r)))
      (.expr .default) e₁)
    (separator : Accepted elseRequired c ws (words wt ++ (words we ++ r)) .thenWord ())
    (thenBranch : Accepted elseRequired c wt (words we ++ r) (.statementExpr valueRequired) e₂)
    (elseBranch : Accepted elseRequired c we r (.elseBranch valueRequired) otherwise) :
    Accepted elseRequired c (c.leaf k :: (wc ++ (ws ++ (wt ++ we)))) r (.conditional valueRequired)
      (.conditional e₁ e₂ otherwise ()) := by
  intro levels hlevels
  simp only [List.length_append, List.length_cons] at hlevels
  rw [words_cons, words_append, words_append, words_append]
  refine (Consumes.conditional (condition.expr_below (by omega)) separator
    (thenBranch.statementExpr_below (by omega))
    fun start => elseBranch levels start (by omega)).mono ?_
  rintro _ ⟨_, _, _, _, rfl, rfl, rfl, rfl⟩
  exact Expr.bare_conditional ..

theorem conditionalValue (hword : k.keyword? = some .if)
    (inner : Accepted elseRequired c (c.leaf k :: u) r (.conditional true) e) :
    Accepted elseRequired c (c.leaf k :: u) r .primary e := by
  refine word (Token.kind_of_keyword? hword) fun levels hlevels => .of_current rfl ?_
  rw [hword]
  exact inner levels hlevels

end Conditionals

/-! ## Declarations and updates -/

theorem declaredTypePresent (hstart : kind (words w ++ r) ∈ expressionStart)
    (type : Accepted elseRequired c w r (.expr .default) e) :
    Accepted elseRequired c w r .declaredType (some e) := by
  have hkind : kind (words w ++ r) ≠ .assignment := by
    intro h
    rw [h] at hstart
    exact absurd hstart (by decide)
  intro levels hlevels
  refine (Consumes.declaredTypePresent hkind (type.expr_below hlevels)).mono ?_
  rintro _ ⟨_, rfl, rfl⟩
  rfl

theorem declaredTypeAbsent (absent : kind r = .assignment) :
    Accepted elseRequired c [] r .declaredType none :=
  fun _ _ => (Consumes.declaredTypeAbsent absent).of_eq rfl

theorem declaration {wt wv : List Leaf} {type : Option (Expr Unit)}
    (named : n.kind = .identifier) (colon : o.kind = .colon)
    (declaredType : Accepted elseRequired c wt (a :: (words wv ++ r)) .declaredType type)
    (assignment : a.kind = .assignment)
    (value : Accepted elseRequired c wv r (.expr .default) e) :
    Accepted elseRequired c (c.leaf n :: c.leaf o :: (wt ++ c.leaf a :: wv)) r .declaration
      (.declaration n.value type e ()) := by
  intro levels hlevels
  simp only [List.length_append, List.length_cons] at hlevels
  rw [words_cons, words_cons, words_append, words_cons]
  refine (Consumes.declaration named colon (declaredType levels (by omega)) assignment
    (value.expr_below (by omega))).mono ?_
  rintro _ ⟨_, _, _, rfl, rfl, rfl⟩
  exact Expr.bare_declaration ..

theorem update {operator : Updater} (named : n.kind = .identifier)
    (updater : Updater.ofKind? o.kind = some operator)
    (value : Accepted elseRequired c w r (.expr .default) e) :
    Accepted elseRequired c (c.leaf n :: c.leaf o :: w) r .update
      (.update n.value operator e ()) := by
  intro levels hlevels
  simp only [List.length_cons] at hlevels
  refine (Consumes.update named updater (value.expr_below (by omega))).mono ?_
  rintro _ ⟨_, _, rfl, rfl⟩
  rfl

/-! ## Calls, members, suffixes and operators -/

section Chains

variable {base left right : Expr Unit}

theorem chainEnd (stop : endsChain c r = true) :
    Accepted elseRequired c [] r (.chain base) base := by
  intro levels bound base' hbase _ hbound
  obtain ⟨bound, rfl⟩ := Nat.exists_eq_succ_of_ne_zero (Nat.ne_of_gt hbound)
  exact (Consumes.chainEnd stop).of_eq hbase

theorem call {es : List (Expr Unit)} {comma : Bool} (sameLine : breaks c [o] = false)
    (opening : o.kind = .openParen)
    (arguments : Accepted elseRequired c w (words v ++ r) (.delimited .expr .closeParen)
      (es, comma))
    (more : Accepted elseRequired c v r (.chain (.call base es ())) e) :
    Accepted elseRequired c (c.leaf o :: (w ++ v)) r (.chain base) e := by
  intro levels bound base' hbase hlevels hbound
  obtain ⟨bound, rfl⟩ := Nat.exists_eq_succ_of_ne_zero (Nat.ne_of_gt (Nat.zero_lt_of_lt hbound))
  rw [List.length_cons, List.length_append] at hlevels hbound
  rw [words_cons, words_append]
  refine .chainCall sameLine opening (.call opening (arguments levels (by omega))) ?_
  rintro _ ⟨list, ⟨⟩, rfl⟩
  refine more levels bound _ ?_ (by omega) (by omega)
  rw [Expr.bare_call, hbase]
  rfl

theorem member (sameLine : breaks c [o] = false) (point : o.kind = .dot)
    (field : Parse.isField n = true)
    (more : Accepted elseRequired c v r (.chain (.member base n.value ())) e) :
    Accepted elseRequired c (c.leaf o :: c.leaf n :: v) r (.chain base) e := by
  intro levels bound base' hbase hlevels hbound
  obtain ⟨bound, rfl⟩ := Nat.exists_eq_succ_of_ne_zero (Nat.ne_of_gt (Nat.zero_lt_of_lt hbound))
  simp only [List.length_cons] at hlevels hbound
  refine .chainMember sameLine point field (more levels bound _ ?_ (by omega) (by omega))
  rw [Expr.bare_member, hbase]
  rfl

theorem suffix {operator : SuffixOperator} (sameLine : breaks c [o] = false)
    (symbol : SuffixOperator.ofKind? o.kind = some operator)
    (noField : o.kind = .dot → isField (words v ++ r) = false)
    (more : Accepted elseRequired c v r (.chain (.suffix base operator ())) e) :
    Accepted elseRequired c (c.leaf o :: v) r (.chain base) e := by
  intro levels bound base' hbase hlevels hbound
  obtain ⟨bound, rfl⟩ := Nat.exists_eq_succ_of_ne_zero (Nat.ne_of_gt (Nat.zero_lt_of_lt hbound))
  rw [List.length_cons] at hlevels hbound
  refine .chainSuffix sameLine symbol noField (more levels bound _ ?_ (by omega) (by omega))
  rw [Expr.bare_suffix, hbase]

theorem operatorsEnd (stop : endsOperators c power r = true) :
    Accepted elseRequired c [] r (.operators power left) left := by
  intro levels bound left' hleft _ hbound
  obtain ⟨bound, rfl⟩ := Nat.exists_eq_succ_of_ne_zero (Nat.ne_of_gt hbound)
  exact (Consumes.operatorsEnd (rules_descent ..) stop).of_eq hleft

theorem binary {operator : BinaryOperator} (sameLine : breaks c [o] = false)
    (symbol : BinaryOperator.ofKind? o.kind = some operator) (tighter : ¬operator.level ≤ power)
    (operand : Accepted elseRequired c w (words v ++ r) (.expr operator.level) right)
    (more : Accepted elseRequired c v r (.operators power (.binary left operator right ())) e) :
    Accepted elseRequired c (c.leaf o :: (w ++ v)) r (.operators power left) e := by
  intro levels bound left' hleft hlevels hbound
  obtain ⟨bound, rfl⟩ := Nat.exists_eq_succ_of_ne_zero (Nat.ne_of_gt (Nat.zero_lt_of_lt hbound))
  rw [List.length_cons, List.length_append] at hlevels hbound
  rw [words_cons, words_append]
  refine .binary (rules_descent ..) sameLine symbol tighter (operand.expr_below (by omega))
    fun right' hright => more levels bound _ ?_ (by omega) (by omega)
  rw [Expr.bare_binary, hleft, hright]

end Chains

/-! ## Whole expressions -/

theorem expr {first left : Expr Unit} (hpos : 0 < u.length)
    (head : Accepted elseRequired c u (words v ++ (words w ++ r)) .primary first)
    (chain : Accepted elseRequired c v (words w ++ r) (.chain first) left)
    (operators : Accepted elseRequired c w r (.operators power left) e) :
    Accepted elseRequired c (u ++ (v ++ w)) r (.expr power) e := by
  intro levels hlevels
  rw [List.length_append, List.length_append] at hlevels
  rw [words_append, words_append]
  obtain ⟨rule, hrule, hprimary⟩ := head levels (by omega)
  refine Consumes.expr (Q := fun b => b.bare = left) rule ?_ hprimary (fun first' hfirst => ?_)
    fun left' hleft => ?_
  · rw [rules_descent, List.append_assoc, List.append_assoc]
    exact hrule
  · rw [bound_descent]
    exact chain levels levels first' hfirst (by omega) (by omega)
  · rw [bound_descent]
    exact operators levels levels left' hleft (by omega) (by omega)

theorem declared (named : n.kind = .identifier) (colon : o.kind = .colon)
    (inner : Accepted elseRequired c (c.leaf n :: c.leaf o :: u) r .declaration e) :
    Accepted elseRequired c (c.leaf n :: c.leaf o :: u) r (.statementExpr valueRequired) e :=
  fun levels hlevels => .declared named colon (inner levels hlevels)

theorem updated {operator : Updater} (named : n.kind = .identifier)
    (updater : Updater.ofKind? o.kind = some operator)
    (inner : Accepted elseRequired c (c.leaf n :: c.leaf o :: u) r .update e) :
    Accepted elseRequired c (c.leaf n :: c.leaf o :: u) r (.statementExpr valueRequired) e :=
  fun levels hlevels => .updated named updater (inner levels hlevels)

theorem chosen (noLabel : bindsLabel (words (c.leaf t :: u) ++ r) = false)
    (hword : t.keyword? = some .if)
    (inner : Accepted elseRequired c (c.leaf t :: u) r (.conditional valueRequired) e) :
    Accepted elseRequired c (c.leaf t :: u) r (.statementExpr valueRequired) e :=
  fun levels hlevels => .chosen noLabel hword (inner levels hlevels)

theorem plain (noLabel : bindsLabel (words (c.leaf t :: u) ++ r) = false)
    (noConditional : t.isKeyword .if = false)
    (inner : Accepted elseRequired c (c.leaf t :: u) r (.expr .default) e) :
    Accepted elseRequired c (c.leaf t :: u) r (.statementExpr valueRequired) e :=
  fun levels hlevels => .statementExpr noLabel noConditional (inner levels hlevels)

end Phrase.Accepted

/-! ## All phrases -/

/-- The production for a phrase passes it wherever the phrase is derived. The induction is on the
derivation. -/
theorem Derives.accepted {elseRequired : Bool} {p : Phrase} {c : Surroundings} {w : List Leaf}
    {v : p.Tree Unit} {r : List Token} (h : Derives elseRequired p c w v r) :
    p.Accepted elseRequired c w r v := by
  induction h with
  | number kind value => exact .number kind value
  | string kind => exact .string kind
  | char kind value => exact .char kind value
  | boolean value word => exact .boolean word
  | label plain => exact .label plain
  | grouping opening _ ih => exact .grouping opening ih
  | tuple opening _ single ih => exact .tuple opening ih single
  | array opening _ ih => exact .array opening ih
  | set word plain opening _ ih => exact .set word plain opening ih
  | mapping word plain opening _ ih => exact .mapping word plain opening ih
  | object opening _ ih => exact .object opening ih
  | function word named opening _ _ _ ihp iht ihb => exact .function word named opening ihp iht ihb
  | arrowBody arrow _ ih => exact .arrowBody arrow ih
  | statementBody inner ih =>
    cases inner with
    | blockBody opening _ _ => exact .statementBody opening ih
  | block kind word plain inner ih =>
    cases inner with
    | blockBody opening _ _ => exact .block kind word plain opening ih
  | blockBody opening _ closing ih => exact .blockBody opening ih closing
  | conditionalValue inner ih =>
    cases inner with
    | conditional word _ _ _ _ => exact .conditionalValue word ih
  | conditional _ _ _ _ _ ihc ihs iht ihe => exact .conditional ihc ihs iht ihe
  | thenPresent word => exact .thenPresent word
  | thenAbsent absent => exact .thenAbsent absent
  | elsePresent word _ ih => exact .elsePresent word ih
  | elseAbsent absent allowed => exact .elseAbsent absent allowed
  | typePresent colon _ ih => exact .typePresent colon ih
  | typeAbsent absent => exact .typeAbsent absent
  | declaredTypePresent type ih => exact .declaredTypePresent (type.kind_mem rfl) ih
  | declaredTypeAbsent absent => exact .declaredTypeAbsent absent
  | declaration named colon _ assignment _ iht ihv =>
    exact .declaration named colon iht assignment ihv
  | update named updater _ ih => exact .update named updater ih
  | chainEnd stop => exact .chainEnd stop
  | call sameLine opening _ _ iha ihm => exact .call sameLine opening iha ihm
  | member sameLine point field _ ih => exact .member sameLine point field ih
  | suffix sameLine symbol noField _ ih => exact .suffix sameLine symbol noField ih
  | operatorsEnd stop => exact .operatorsEnd stop
  | binary sameLine symbol tighter _ _ iho ihm => exact .binary sameLine symbol tighter iho ihm
  | expr head _ _ ihh ihc iho => exact .expr (head.length_pos rfl) ihh ihc iho
  | declared inner ih =>
    cases inner with
    | declaration named colon _ _ _ => exact .declared named colon ih
  | updated inner ih =>
    cases inner with
    | update named updater _ => exact .updated named updater ih
  | chosen noLabel inner ih =>
    cases inner with
    | conditional word _ _ _ _ => exact .chosen noLabel word ih
  | plain noLabel noConditional inner ih =>
    obtain ⟨t, u, rfl, -⟩ := inner.starts rfl
    exact .plain noLabel noConditional ih
  | element _ ih => exact .element ih
  | entry _ colon _ ihk ihv => exact .entry ihk colon ihv
  | field named colon _ ih => exact .field named colon ih
  | parameter named _ ih => exact .parameter named ih
  | noElement stop => exact .noElement stop
  | lastElement go _ stop ih => exact .lastElement go ih stop
  | moreElements go _ separator _ ihx ihm => exact .moreElements go ihx separator ihm
  | delimited _ closing ih => exact .delimited ih closing
  | typeDefinition word named sameLine assignment _ ih =>
    exact .typeDefinition word named sameLine assignment ih
  | expression noType inner ih =>
    obtain ⟨t, u, rfl, -⟩ := inner.starts rfl
    exact .expression noType ih
  | semicolon kind => exact .semicolon kind
  | noSemicolon stop => exact .noSemicolon stop
  | emptyStatement kind _ ih => exact .emptyStatement kind ih
  | noStatement stop noSemicolon => exact .noStatement stop noSemicolon
  | statement go more content _ _ ihc iht ihr =>
    exact .statement (content.length_pos rfl) (content.kind_mem rfl) go more ihc iht ihr

/-- A source is parsed if its tokens are derived. -/
theorem parse_of_derives {source : String} {settings : Settings} {w : List Leaf} {stop : Token}
    {body : List (Stmt Unit)}
    (hstream : TokenStream.ofSource source settings.file = ⟨words w, .ok stop⟩)
    (h : Derives settings.elseRequired (.statements .eof) .outside w body []) :
    ∃ m, parse source settings = .ok m ∧ m.bare = body := by
  have hlevels : (words w).length < w.length + 1 := by
    rw [length_words]
    exact Nat.lt_succ_self _
  have hstatements := h.accepted (w.length + 1) (w.length + 1) (Nat.lt_succ_self _)
    (Nat.lt_succ_self _)
  exact parse_of_consumes hstream hlevels hstatements

end SurfaceGrammar

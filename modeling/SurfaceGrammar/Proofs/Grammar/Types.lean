import SurfaceGrammar.Proofs.Grammar.Items
import SurfaceGrammar.Proofs.Grammar.Printing

/-!
# Types

A type is written with labels, binary operators, members, suffixes and calls. A return type stands
before the body of its function, so no curly bracket may go on with it, though words that open a
block, a set or a map are labels as well. This module says which tokens make up a type, and shows
that they stand for the same expression at every place in a line where nothing goes on with it: in
front of the end of a source as well as in front of the body of a function.

* `IsType`: the tokens of a type.
* `EndsOperand`: where no operand goes on.
* `AreArguments.exists_reads`: the arguments of a call.
* `ArePostfixes.exists_readsChain`: members, suffixes and calls behind an expression.
* `AreOperators.exists_reads`: the operators that bind more tightly than a power.
* `IsType.exists_reads`, `ReadsExpr.isExpr`: a type, at every place and alone.
-/

namespace SurfaceGrammar

open Lookahead

/-! ## The tokens of a type -/

/-- The word is a label wherever it stands in a type. -/
def Token.IsTypeLabel (t : Token) : Prop :=
  t.kind = .identifier ∧
    ∀ word ∈ [Keyword.if, .then, .else, .fn, .true, .false], t.isKeyword word = false

instance (t : Token) : Decidable t.IsTypeLabel := inferInstanceAs (Decidable (_ ∧ _))

/-- The tokens are those of a source on one line that is read as one expression. -/
def IsArgument (settings : Settings) (ts : List Token) : Prop :=
  ∃ (item : Item settings) (place : Nat), ts = item.tokens.map (Token.shift place)

/-- Arguments with commas between them, and perhaps with a comma behind the last one. -/
inductive AreArguments (settings : Settings) : List Token → Prop
  | none : AreArguments settings []
  | last {ts : List Token} (argument : IsArgument settings ts) : AreArguments settings ts
  | more {ts us : List Token} {o : Token} (argument : IsArgument settings ts)
      (separator : o.kind = .comma) (rest : AreArguments settings us) :
      AreArguments settings (ts ++ o :: us)

/-- Members, suffixes and calls behind an expression. -/
inductive ArePostfixes (settings : Settings) : List Token → Prop
  | none : ArePostfixes settings []
  | member {o n : Token} {ts : List Token} (point : o.kind = .dot) (field : Parse.isField n = true)
      (rest : ArePostfixes settings ts) : ArePostfixes settings (o :: n :: ts)
  | suffix {o : Token} {operator : SuffixOperator} {ts : List Token}
      (symbol : SuffixOperator.ofKind? o.kind = some operator) (rest : ArePostfixes settings ts) :
      ArePostfixes settings (o :: ts)
  | call {o k : Token} {ts us : List Token} (opening : o.kind = .openParen)
      (arguments : AreArguments settings ts) (closing : k.kind = .closeParen)
      (rest : ArePostfixes settings us) : ArePostfixes settings (o :: (ts ++ [k] ++ us))

/-- A label with members, suffixes and calls behind it. -/
def IsOperand (settings : Settings) (ts : List Token) : Prop :=
  ∃ t us, ts = t :: us ∧ t.IsTypeLabel ∧ ArePostfixes settings us

/-- Binary operators, each with an operand behind it. -/
inductive AreOperators (settings : Settings) : List Token → Prop
  | none : AreOperators settings []
  | binary {o : Token} {operator : BinaryOperator} {us vs : List Token}
      (symbol : BinaryOperator.ofKind? o.kind = some operator) (operand : IsOperand settings us)
      (rest : AreOperators settings vs) : AreOperators settings (o :: (us ++ vs))

/-- Operands with binary operators between them. -/
def IsType (settings : Settings) (ts : List Token) : Prop :=
  ∃ us vs, ts = us ++ vs ∧ IsOperand settings us ∧ AreOperators settings vs

/-! ## Where an operand ends -/

/-- Nothing goes on with an operand here: no call, member or suffix, and no curly bracket that
belongs to a word before it. -/
structure EndsOperand (c : Surroundings) (r : List Token) : Prop where
  chain : endsChain c r = true
  noField : isField r = false
  noCurly : (c.returnType || kind r ≠ .openCurly) = true

variable {settings : Settings} {c : Surroundings} {power : Power} {o t : Token}
  {ts us vs r : List Token} {base left e : Expr Span}

/-- No line break ends an expression before a token on the same line. -/
theorem breaks_shift (ho : o.newlineBefore = false) (count : Nat) (c : Surroundings) :
    breaks c [o.shift count] = false := by
  rw [breaks, isOnNewLine_cons, show (o.shift count).newlineBefore = false from ho, Bool.and_false]

/-- A point in front of something else than a word makes no member of it. -/
theorem isField_of_kind_ne (ho : o.kind ≠ .identifier) : isField (o :: r) = false := by
  rw [isField_cons, Parse.isField, decide_eq_false ho]
  rfl

/-- An operand ends in front of a binary operator. -/
theorem EndsOperand.of_operator {operator : BinaryOperator}
    (symbol : BinaryOperator.ofKind? o.kind = some operator) : EndsOperand c (o :: r) := by
  have hkind : o.kind ∉ [TokenKind.openParen, .dot, .dollar, .hash, .question, .identifier,
      .openCurly] := by
    intro hmem
    generalize o.kind = next at hmem symbol
    have hnone : ∀ next ∈ [TokenKind.openParen, .dot, .dollar, .hash, .question, .identifier,
        .openCurly], BinaryOperator.ofKind? next = none := by decide
    rw [hnone next hmem] at symbol
    cases symbol
  simp only [List.mem_cons, List.not_mem_nil, or_false, not_or] at hkind
  obtain ⟨hparen, hdot, hdollar, hhash, hquestion, hidentifier, hcurly⟩ := hkind
  constructor
  · rw [endsChain, kind_cons, Bool.or_eq_true]
    right
    split
    all_goals first | contradiction | rfl
  · exact isField_of_kind_ne hidentifier
  · rw [kind_cons, decide_eq_true hcurly, Bool.or_true]

theorem AreOperators.endsOperand (h : AreOperators settings ts) (count : Nat)
    (hr : EndsOperand c r) : EndsOperand c (ts.map (Token.shift count) ++ r) := by
  cases h with
  | none => exact hr
  | binary symbol => exact .of_operator symbol

theorem AreOperators.append (h : AreOperators settings ts) (h' : AreOperators settings us) :
    AreOperators settings (ts ++ us) := by
  induction h with
  | none => exact h'
  | binary symbol operand _ ih =>
    rw [List.cons_append, List.append_assoc]
    exact .binary symbol operand ih

/-- Operators that bind more tightly than a power end where those do that bind more tightly than a
lower one. -/
theorem endsOperators_mono {power' : Power} (h : endsOperators c power r = true)
    (hle : power ≤ power') : endsOperators c power' r = true := by
  rw [endsOperators, Bool.or_eq_true] at h ⊢
  rcases h with h | h
  · exact .inl h
  · right
    split at h
    · rfl
    · exact decide_eq_true (Nat.le_trans (of_decide_eq_true h) hle)

/-- Members, suffixes and calls begin with a mark. -/
theorem ArePostfixes.kind_mem (h : ArePostfixes settings (o :: ts)) :
    o.kind ∈ [TokenKind.openParen, .dot, .dollar, .hash, .question] := by
  cases h with
  | member point =>
    rw [point]
    decide
  | suffix symbol =>
    generalize o.kind = next at symbol
    cases next
    case dot | dollar | hash | question => decide
    all_goals cases symbol
  | call opening =>
    rw [opening]
    decide

theorem ArePostfixes.kind_ne {next : TokenKind} (h : ArePostfixes settings (o :: ts))
    (hnext : next ∉ [TokenKind.openParen, .dot, .dollar, .hash, .question]) : o.kind ≠ next := by
  rintro rfl
  exact hnext h.kind_mem

/-- A point in front of members, suffixes and calls makes no member of what follows. -/
theorem ArePostfixes.noField (h : ArePostfixes settings ts) (count : Nat)
    (hr : isField r = false) : isField (ts.map (Token.shift count) ++ r) = false := by
  cases ts with
  | nil => exact hr
  | cons o ts => exact isField_of_kind_ne (h.kind_ne (by decide))

/-- No curly bracket stands in front of members, suffixes and calls. -/
theorem ArePostfixes.noCurly (h : ArePostfixes settings ts) (count : Nat)
    (hr : (c.returnType || kind r ≠ .openCurly) = true) :
    (c.returnType || kind (ts.map (Token.shift count) ++ r) ≠ .openCurly) = true := by
  cases ts with
  | nil => exact hr
  | cons o ts =>
    have hkind : (o.shift count).kind ≠ .openCurly := h.kind_ne (by decide)
    rw [List.map_cons, List.cons_append, kind_cons, decide_eq_true hkind, Bool.or_true]

/-! ## Arguments -/

/-- An argument is read in front of a comma or of the closing parenthesis. -/
theorem IsArgument.exists_reads (h : IsArgument settings ts) :
    ∃ e : Expr Span, ∀ (count levels : Nat) (k : Token) (r : List Token), ts.length ≤ levels →
      k.kind = .comma ∨ k.kind = .closeParen →
      Consumes (Parse.expr (descent .standard settings.elseRequired levels) .default) .inside
        (ts.map (Token.shift count)) (k :: r) (· = e.mapMark (Span.shift count)) := by
  obtain ⟨item, place, rfl⟩ := h
  refine ⟨item.treeAt place, ?_⟩
  intro count levels k r hlevels hk
  rw [List.length_map] at hlevels
  have hends : k.kind ∈ TokenKind.enders := by rcases hk with hk | hk <;> rw [hk] <;> decide
  have hcolon : k.kind ≠ .colon := by rcases hk with hk | hk <;> rw [hk] <;> decide
  have hread := item.consumes hends (absurd · hcolon) hlevels (place + count) r
  rw [Item.treeAt, ← Span.shift_comp_shift, ← Token.shift_comp_shift] at hread
  rw [List.map_map, Item.treeAt, Expr.mapMark_mapMark]
  exact hread

/-- An expression begins where an argument does. -/
theorem IsArgument.begins (h : IsArgument settings ts) (count : Nat) (r : List Token) :
    kind (ts.map (Token.shift count) ++ r) ∈ expressionStart := by
  obtain ⟨item, place, rfl⟩ := h
  rw [List.map_map, Token.shift_comp_shift]
  exact item.begins (place + count) r

/-- Arguments are read in front of the closing parenthesis. The induction is on the arguments. -/
theorem AreArguments.exists_reads (h : AreArguments settings ts) :
    ∃ es : List (Expr Span), ∀ (count levels bound : Nat) (k : Token) (r : List Token)
      (afterComma : Bool), ts.length ≤ levels → ts.length < bound → k.kind = .closeParen →
      Consumes (Parse.elements .closeParen
          ((descent .standard settings.elseRequired (levels + 1)).expr .default) bound afterComma)
        .inside (ts.map (Token.shift count)) (k :: r)
        (·.1 = es.map (Expr.mapMark (Span.shift count))) := by
  induction h with
  | none =>
    refine ⟨[], ?_⟩
    intro count levels bound k r afterComma _ hbound hk
    obtain ⟨bound, rfl⟩ := Nat.exists_eq_succ_of_ne_zero (Nat.ne_of_gt hbound)
    have hstop : kind (k :: r) = .closeParen := hk
    refine (Consumes.noElement hstop).mono ?_
    rintro _ rfl
    rfl
  | last argument =>
    obtain ⟨e, hread⟩ := argument.exists_reads
    refine ⟨[e], ?_⟩
    intro count levels bound k r afterComma hlevels hbound hk
    obtain ⟨bound, rfl⟩ : ∃ n, bound = n + 1 := ⟨bound - 1, by omega⟩
    have hgo := Element.ne_closing (argument.begins count (k :: r))
      (by decide : TokenKind.closeParen ∈ TokenKind.closings)
    have hstop : kind (k :: r) ≠ .comma := by
      rw [kind_cons, hk]
      decide
    refine (Consumes.lastElement hgo (hread count levels k r hlevels (.inr hk)) hstop).mono ?_
    rintro _ ⟨_, rfl, rfl⟩
    rfl
  | @more ts us o argument separator _ ih =>
    obtain ⟨e, hread⟩ := argument.exists_reads
    obtain ⟨es, hreads⟩ := ih
    refine ⟨e :: es, ?_⟩
    intro count levels bound k r afterComma hlevels hbound hk
    rw [List.length_append, List.length_cons] at hlevels hbound
    obtain ⟨bound, rfl⟩ : ∃ n, bound = n + 1 := ⟨bound - 1, by omega⟩
    have hgo := Element.ne_closing
      (argument.begins count (o.shift count :: (us.map (Token.shift count) ++ k :: r)))
      (by decide : TokenKind.closeParen ∈ TokenKind.closings)
    have hseparator : (o.shift count).kind = .comma := separator
    rw [List.map_append, List.map_cons]
    refine (Consumes.moreElements afterComma hgo
      (hread count levels _ _ (by omega) (.inl hseparator)) hseparator
      (hreads count levels bound k r true (by omega) (by omega) hk)).mono ?_
    rintro _ ⟨_, rest, rfl, hrest, rfl⟩
    rw [List.map_cons, ← hrest]

/-! ## Members, suffixes and calls -/

/-- Wherever the tokens stand in front of what ends an operand, the expression `base` goes on with
them to `e`. -/
def ReadsChain (settings : Settings) (base : Expr Span) (ts : List Token) (e : Expr Span) : Prop :=
  ∀ (count levels bound : Nat) (c : Surroundings) (r : List Token), ts.length ≤ levels →
    ts.length < bound → EndsOperand c r →
    Consumes (Parse.suffixChain (descent .standard settings.elseRequired (levels + 1)) bound
        (base.mapMark (Span.shift count))) c (ts.map (Token.shift count)) r
      (· = e.mapMark (Span.shift count))

/-- The induction is on the members, suffixes and calls. -/
theorem ArePostfixes.exists_readsChain (h : ArePostfixes settings ts)
    (hline : ∀ t ∈ ts, t.newlineBefore = false) (base : Expr Span) :
    ∃ e, ReadsChain settings base ts e := by
  have hstart (e : Expr Span) (count : Nat) :
      (e.mapMark (Span.shift count)).mark.start = e.mark.start.shift count := by
    rw [Expr.mark_mapMark]
    rfl
  induction h generalizing base with
  | none =>
    refine ⟨base, ?_⟩
    intro count levels bound c r _ hbound hr
    obtain ⟨bound, rfl⟩ := Nat.exists_eq_succ_of_ne_zero (Nat.ne_of_gt hbound)
    exact .chainEnd hr.chain
  | @member o n ts point field _ ih =>
    simp only [List.forall_mem_cons] at hline
    obtain ⟨ho, -, hts⟩ := hline
    obtain ⟨e, hmore⟩ := ih hts (.member base n.value ⟨base.mark.start, n.span.stop⟩)
    refine ⟨e, ?_⟩
    intro count levels bound c r hlevels hbound hr
    simp only [List.length_cons] at hlevels hbound
    obtain ⟨bound, rfl⟩ : ∃ n, bound = n + 1 := ⟨bound - 1, by omega⟩
    refine .chainMember (breaks_shift ho count c) point field ?_
    rw [hstart]
    exact hmore count levels bound c r (by omega) (by omega) hr
  | @suffix o operator ts symbol rest ih =>
    rw [List.forall_mem_cons] at hline
    obtain ⟨ho, hts⟩ := hline
    obtain ⟨e, hmore⟩ := ih hts (.suffix base operator ⟨base.mark.start, o.span.stop⟩)
    refine ⟨e, ?_⟩
    intro count levels bound c r hlevels hbound hr
    rw [List.length_cons] at hlevels hbound
    obtain ⟨bound, rfl⟩ : ∃ n, bound = n + 1 := ⟨bound - 1, by omega⟩
    refine .chainSuffix (breaks_shift ho count c) symbol (fun _ => rest.noField count hr.noField) ?_
    rw [hstart]
    exact hmore count levels bound c r (by omega) (by omega) hr
  | @call o k ts us opening arguments closing _ ih =>
    rw [List.forall_mem_cons, List.forall_mem_append] at hline
    obtain ⟨ho, -, hus⟩ := hline
    obtain ⟨es, harguments⟩ := arguments.exists_reads
    obtain ⟨e, hmore⟩ := ih hus (.call base es ⟨base.mark.start, k.span.stop⟩)
    refine ⟨e, ?_⟩
    intro count levels bound c r hlevels hbound hr
    simp only [List.length_cons, List.length_append, List.length_nil] at hlevels hbound
    obtain ⟨bound, rfl⟩ : ∃ n, bound = n + 1 := ⟨bound - 1, by omega⟩
    have hlist := Consumes.delimited (c := c) (harguments count levels (levels + 1) (k.shift count)
      (us.map (Token.shift count) ++ r) false (by omega) (by omega) closing) closing
    rw [List.map_cons, List.map_append, List.map_append, List.map_singleton]
    refine .chainCall (breaks_shift ho count c) opening (.call opening hlist) ?_
    rintro _ ⟨list, ⟨helements, hclosing⟩, rfl⟩
    have helements' : list.elements = es.map (Expr.mapMark (Span.shift count)) := helements
    rw [helements', hclosing, hstart]
    have hbase := hmore count levels bound c r (by omega) (by omega) hr
    rw [Expr.mapMark_call] at hbase
    exact hbase

/-! ## Operators -/

/-- Wherever the tokens stand in front of what ends an operand and the operators that bind more
tightly than the power, they are read as the expression. -/
def ReadsExpr (settings : Settings) (power : Power) (ts : List Token) (e : Expr Span) : Prop :=
  ∀ (count levels : Nat) (c : Surroundings) (r : List Token), ts.length ≤ levels →
    EndsOperand c r → endsOperators c power r = true →
    Consumes (Parse.expr (descent .standard settings.elseRequired levels) power) c
      (ts.map (Token.shift count)) r (· = e.mapMark (Span.shift count))

/-- Wherever the tokens stand there, the expression `left` goes on with them to `e`. -/
def ReadsOperators (settings : Settings) (power : Power) (left : Expr Span) (ts : List Token)
    (e : Expr Span) : Prop :=
  ∀ (count levels bound : Nat) (c : Surroundings) (r : List Token), ts.length ≤ levels →
    ts.length < bound → EndsOperand c r → endsOperators c power r = true →
    Consumes (Parse.operators (descent .standard settings.elseRequired (levels + 1)) power bound
        (left.mapMark (Span.shift count))) c (ts.map (Token.shift count)) r
      (· = e.mapMark (Span.shift count))

/-- A word that is a label in a type is one where no curly bracket belongs to it. -/
theorem Token.IsTypeLabel.plainLabel (h : t.IsTypeLabel)
    (hr : (c.returnType || Lookahead.kind r ≠ .openCurly) = true) :
    Lookahead.plainLabel c t r = true := by
  obtain ⟨hkind, hwords⟩ := h
  have hnot {word : Keyword} (hword : t.keyword? = some word) :
      word ∉ [Keyword.if, .then, .else, .fn, .true, .false] := by
    intro hmem
    have hno := hwords word hmem
    rw [Token.isKeyword, hword, decide_eq_true rfl] at hno
    cases hno
  rw [Lookahead.plainLabel, decide_eq_true hkind, Bool.true_and]
  cases hword : t.keyword? with
  | none => rfl
  | some word =>
    have hword' := hnot hword
    cases word
    case type => rfl
    case «do» | scope | set | map => exact hr
    all_goals exact absurd (by decide) hword'

/-- An operand and the operators behind it. -/
theorem IsOperand.exists_readsExpr (h : IsOperand settings us)
    (hline : ∀ t ∈ us, t.newlineBefore = false) (hvs : AreOperators settings vs)
    (hread : ∀ left, ∃ e, ReadsOperators settings power left vs e) :
    ∃ e, ReadsExpr settings power (us ++ vs) e := by
  obtain ⟨t, ts, rfl, hlabel, hpostfixes⟩ := h
  rw [List.forall_mem_cons] at hline
  obtain ⟨first, hchain⟩ := hpostfixes.exists_readsChain hline.2 (.label t.value t.span)
  obtain ⟨e, hoperators⟩ := hread first
  refine ⟨e, ?_⟩
  intro count levels c r hlevels hr hends
  rw [List.length_append, List.length_cons] at hlevels
  obtain ⟨levels, rfl⟩ : ∃ n, levels = n + 1 := ⟨levels - 1, by omega⟩
  have hbehind := hvs.endsOperand count hr
  have hlabel' : (t.shift count).IsTypeLabel := hlabel
  have hhead : Consumes (Parse.primary (descent .standard settings.elseRequired (levels + 1))
      .label) c [t.shift count] (ts.map (Token.shift count) ++ (vs.map (Token.shift count) ++ r))
      (· = .label t.value (t.span.shift count)) :=
    .plainWord (hlabel'.plainLabel (hpostfixes.noCurly count hbehind.noCurly))
  have hrule : Rules.standardPrimary? (t.shift count).kind = some .label := by
    rw [hlabel'.1]
    rfl
  rw [List.map_append, List.map_cons]
  refine Consumes.expr (Q := (· = first.mapMark (Span.shift count))) .label hrule hhead ?_ ?_
  · rintro _ rfl
    exact hchain count levels (levels + 1) c _ (by omega) (by omega) hbehind
  · rintro _ rfl
    exact hoperators count levels (levels + 1) c r (by omega) (by omega) hr hends

/-- The first of the operators binds no more tightly than the power. -/
def BindsLoosely (power : Power) (ts : List Token) : Prop :=
  ∀ o ∈ ts.head?, ∀ operator, BinaryOperator.ofKind? o.kind = some operator →
    operator.level ≤ power

/-- In front of such operators those end that bind more tightly. -/
theorem BindsLoosely.endsOperators (h : BindsLoosely power ts) (hts : AreOperators settings ts)
    (count : Nat) (hr : Lookahead.endsOperators c power r = true) :
    Lookahead.endsOperators c power (ts.map (Token.shift count) ++ r) = true := by
  cases hts with
  | none => exact hr
  | @binary o operator us vs symbol =>
    have hle := h o rfl operator symbol
    have hkind : (o.shift count).kind = o.kind := rfl
    rw [List.map_cons, List.cons_append, Lookahead.endsOperators, kind_cons, hkind, symbol,
      Bool.or_eq_true]
    right
    exact decide_eq_true hle

theorem BindsLoosely.of_append (h : BindsLoosely power (ts ++ us)) : BindsLoosely power ts := by
  intro o ho
  cases ts with
  | nil => cases ho
  | cons t ts => exact h o ho

theorem ReadsOperators.none (left : Expr Span) : ReadsOperators settings power left [] left := by
  intro count levels bound c r _ hbound _ hends
  obtain ⟨bound, rfl⟩ := Nat.exists_eq_succ_of_ne_zero (Nat.ne_of_gt hbound)
  exact .operatorsEnd rfl hends

/-- An operator with its right operand, and the operators behind them. These bind no more tightly
than the first one, so the operand ends in front of them. -/
theorem ReadsOperators.binary {operator : BinaryOperator} {right : Expr Span}
    (ho : o.newlineBefore = false) (symbol : BinaryOperator.ofKind? o.kind = some operator)
    (tighter : ¬operator.level ≤ power) (operand : ReadsExpr settings operator.level ts right)
    (hus : AreOperators settings us) (loose : BindsLoosely operator.level us)
    (more : ReadsOperators settings power
      (.binary left operator right (left.mark.join right.mark)) us e) :
    ReadsOperators settings power left (o :: (ts ++ us)) e := by
  intro count levels bound c r hlevels hbound hr hends
  rw [List.length_cons, List.length_append] at hlevels hbound
  obtain ⟨bound, rfl⟩ : ∃ n, bound = n + 1 := ⟨bound - 1, by omega⟩
  have hends' := loose.endsOperators hus count (endsOperators_mono hends (Nat.le_of_not_le tighter))
  have hoperand := operand count levels c _ (by omega) (hus.endsOperand count hr) hends'
  have hafter := more count levels bound c r (by omega) (by omega) hr hends
  rw [List.map_cons, List.map_append]
  refine .binary rfl (breaks_shift ho count c) symbol tighter hoperand ?_
  rintro _ rfl
  rw [Expr.mark_mapMark, Expr.mark_mapMark]
  exact hafter

/-- Of some operators the first ones bind more tightly than a power, up to one that does not. These
are read. The right operand of an operator takes the operators that bind more tightly than it, and
the loop goes on with the others, so the induction is on the number of the tokens. -/
theorem AreOperators.exists_reads {n : Nat} (hn : ts.length ≤ n) (h : AreOperators settings ts)
    (hline : ∀ t ∈ ts, t.newlineBefore = false) (power : Power) :
    ∃ us vs, ts = us ++ vs ∧ AreOperators settings us ∧ AreOperators settings vs ∧
      BindsLoosely power vs ∧ ∀ left, ∃ e, ReadsOperators settings power left us e := by
  induction n generalizing ts power with
  | zero =>
    obtain rfl := List.eq_nil_of_length_eq_zero (Nat.le_zero.mp hn)
    exact ⟨[], [], rfl, .none, .none, nofun, fun left => ⟨left, .none left⟩⟩
  | succ n ih =>
    cases h with
    | none => exact ⟨[], [], rfl, .none, .none, nofun, fun left => ⟨left, .none left⟩⟩
    | @binary o operator us vs symbol operand rest =>
      by_cases htighter : operator.level ≤ power
      · refine ⟨[], _, rfl, .none, .binary symbol operand rest, ?_, fun left => ⟨left, .none left⟩⟩
        intro o' ho' operator' symbol'
        cases ho'
        rw [symbol] at symbol'
        cases symbol'
        exact htighter
      · rw [List.length_cons, List.length_append] at hn
        rw [List.forall_mem_cons, List.forall_mem_append] at hline
        obtain ⟨ho, hus, hvs⟩ := hline
        obtain ⟨inner, more, rfl, hinner, hmore, hloose, hreads⟩ :=
          ih (by omega) rest hvs operator.level
        rw [List.forall_mem_append] at hvs
        rw [List.length_append] at hn
        obtain ⟨outer, others, rfl, houter, hothers, hstops, hgoes⟩ :=
          ih (by omega) hmore hvs.2 power
        obtain ⟨right, hright⟩ := operand.exists_readsExpr hus hinner hreads
        refine ⟨o :: (us ++ (inner ++ outer)), others, by simp,
          .binary symbol operand (hinner.append houter), hothers, hstops, ?_⟩
        intro left
        obtain ⟨e, he⟩ := hgoes (.binary left operator right (left.mark.join right.mark))
        refine ⟨e, ?_⟩
        rw [← List.append_assoc]
        exact .binary ho symbol htighter hright houter hloose.of_append he

/-! ## Types -/

/-- A type is read at every place in a line where nothing goes on with it. -/
theorem IsType.exists_reads (h : IsType settings ts) (hline : ∀ t ∈ ts, t.newlineBefore = false) :
    ∃ e, ReadsExpr settings .default ts e := by
  obtain ⟨us, vs, rfl, hoperand, hoperators⟩ := h
  rw [List.forall_mem_append] at hline
  obtain ⟨taken, others, rfl, htaken, hothers, hloose, hreads⟩ :=
    hoperators.exists_reads (Nat.le_refl _) hline.2 .default
  -- All operators bind more tightly than the loosest power, so none is left.
  have hnone : others = [] := by
    cases hothers with
    | none => rfl
    | @binary o operator us vs symbol =>
      exact absurd (hloose o rfl operator symbol) operator.not_level_le_default
  rw [hnone, List.append_nil]
  exact hoperand.exists_readsExpr hline.1 htaken hreads

/-- What is read everywhere is what is read alone. -/
theorem ReadsExpr.isExpr {source : String} {stop : Token} (h : ReadsExpr settings .default ts e)
    (hstream : TokenStream.ofSource source settings.file = ⟨ts, .ok stop⟩) :
    IsExpr source settings e := by
  have hexpr := h 0 ts.length .outside [] (Nat.le_refl _) ⟨rfl, rfl, rfl⟩ rfl
  rw [Span.shift_zero, Expr.mapMark_id, List.map_id'' Token.shift_zero] at hexpr
  exact .of_consumes hstream (Nat.le_refl _) hexpr

end SurfaceGrammar

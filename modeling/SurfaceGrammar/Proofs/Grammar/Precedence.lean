import SurfaceGrammar.Proofs.Grammar.Printing

/-!
# Precedence and associativity

A formula is an expression of names, operators, calls, members and suffixes. It is printed with
the fewest parentheses that its operators allow: the left operand of an operator stands in
parentheses if its own operator holds less tightly, the right one also if it holds as tightly, and
what is called or followed by a point or a suffix if it has an operator at all.

* `Formula`, `Formula.toExpr`: formulas and their trees.
* `Formula.print`: the pieces of a formula.
* `Formula.recognised_print`: the lexemes of a printed formula are recognised.
* `Formula.heads_of_chain`, `Formula.expr_of_operators`: how the tokens of a printed formula are
  derived.
* `parse_print`: a printed formula is parsed to its tree.
-/

namespace SurfaceGrammar

/-! ## Formulas -/

/-- A text that names something. -/
structure Identifier where
  text : String
  valid : IsIdentifier text

/-- An expression of names, operators, calls, members and suffixes. -/
inductive Formula where
  | label (name : Identifier)
  | binary (left : Formula) (operator : BinaryOperator) (right : Formula)
  | call (callee : Formula) (arguments : List Formula)
  | member (base : Formula) (field : Identifier)
  | suffix (base : Formula) (operator : SuffixOperator)

namespace Formula

mutual

/-- The tree of a formula. -/
def toExpr : Formula → Expr Unit
  | label name => .label name.text ()
  | binary left operator right => .binary left.toExpr operator right.toExpr ()
  | call callee arguments => .call callee.toExpr (toExprEach arguments) ()
  | member base field => .member base.toExpr field.text ()
  | suffix base operator => .suffix base.toExpr operator ()

/-- The trees of formulas. -/
def toExprEach : List Formula → List (Expr Unit)
  | [] => []
  | f :: rest => f.toExpr :: toExprEach rest

end

/-! ## The printer -/

/-- The binary operator of a formula that is no operand of another one in it. -/
def operator? : Formula → Option BinaryOperator
  | binary _ operator _ => some operator
  | _ => none

/-- Pieces in parentheses, if they need them. -/
def enclose (needed : Bool) (p : List Piece) : List Piece :=
  if needed then Piece.parens p else p

mutual

/-- The pieces of a formula with the fewest parentheses. -/
def print : Formula → List Piece
  | label name => [.name name.text]
  | binary left operator right =>
    enclose (left.operator?.any fun o => o.level.rank < operator.level.rank) left.print ++
      .space :: .mark operator.kind :: .space ::
        enclose (right.operator?.any fun o => o.level.rank ≤ operator.level.rank) right.print
  | call callee arguments =>
    enclose callee.operator?.isSome callee.print ++
      .mark .openParen :: (Piece.commas false (printEach arguments) ++ [.mark .closeParen])
  | member base field =>
    enclose base.operator?.isSome base.print ++ [.mark .dot, .name field.text]
  | suffix base operator =>
    enclose base.operator?.isSome base.print ++ [.mark operator.kind]

/-- The pieces of each formula. -/
def printEach : List Formula → List (List Piece)
  | [] => []
  | f :: rest => f.print :: printEach rest

end

/-! ## Recognising a printed formula -/

section Recognised

theorem solid_enclose {p : List Piece} (h : Piece.Solid p) (needed : Bool) :
    Piece.Solid (enclose needed p) := by
  cases needed with
  | false => exact h
  | true => exact h.parens

mutual

/-- The lexemes of a printed formula are recognised. -/
theorem solid_print : ∀ f : Formula, Piece.Solid f.print
  | label name => by
    intro ps htail tail
    rw [print]
    exact .of_name name.valid htail tail
  | binary left operator right => by
    intro ps htail tail
    have hright := solid_enclose (solid_print right)
      (right.operator?.any fun o => o.level.rank ≤ operator.level.rank) ps htail tail
    rw [print, List.append_assoc]
    refine solid_enclose (solid_print left) _ _ rfl (.space (.of_mark operator.kind_mem ?_))
    rwa [operator.endsValue_mark]
  | call callee arguments => by
    intro ps htail tail
    rw [print, List.append_assoc, List.cons_append, List.append_assoc]
    refine solid_enclose (solid_print callee) _ _ rfl (.of_closed rfl ?_)
    exact Piece.recognised_commas (.inl rfl) false tail (solid_printEach arguments)
  | member base field => by
    intro ps htail tail
    rw [print, List.append_assoc]
    refine solid_enclose (solid_print base) _ _ ?_ (.of_closed rfl ?_)
    · exact Lexeme.endsWord_point_name field.valid.name
    · exact .of_name field.valid htail tail
  | suffix base operator => by
    intro ps htail tail
    rw [print, List.append_assoc]
    refine solid_enclose (solid_print base) _ _ (operator.endsWord_mark htail) ?_
    exact .of_closed operator.isClosed_kind (by rwa [operator.endsValue_mark])

/-- The lexemes of each printed formula are recognised. -/
theorem solid_printEach : ∀ fs : List Formula, ∀ p ∈ printEach fs, Piece.Solid p
  | [] => nofun
  | f :: rest => by
    intro p hp
    obtain rfl | hp := List.mem_cons.mp hp
    · exact solid_print f
    · exact solid_printEach rest p hp

end

end Recognised

/-! ## Deriving a printed formula -/

section Derives

open Lookahead Piece

variable {elseRequired : Bool} {c : Surroundings} {e left : Expr Unit} {power : Power}
  {p q s : List Piece} {r : List Token}

/-- The tokens of pieces make up an expression up to its first operator. -/
def Heads (elseRequired : Bool) (c : Surroundings) (p : List Piece) (e : Expr Unit)
    (r : List Token) : Prop :=
  ∃ p₁ first p₂, p = p₁ ++ p₂ ∧ Yields elseRequired .primary c p₁ first (tokens p₂ ++ r) ∧
    Yields elseRequired (.chain first) c p₂ e r

theorem Heads.expr (h : Heads elseRequired c p left (tokens s ++ r))
    (hs : Yields elseRequired (.operators power left) c s e r) :
    Yields elseRequired (.expr power) c (p ++ s) e r := by
  obtain ⟨p₁, first, p₂, rfl, hprimary, hchain⟩ := h
  rw [List.append_assoc]
  exact .expr hprimary hchain hs

/-- The operator ends those that hold at least as tightly. -/
theorem endsOperators_operator (operator : BinaryOperator) (ts : List Token)
    (h : operator.level ≤ power) :
    endsOperators c power ((Lexeme.mark operator.kind).token :: ts) = true := by
  simp [endsOperators, h]

/-- An operator that holds more tightly than another ends with it. -/
theorem endsOperators_of_le {power' : Power} {ts : List Token} (hle : power ≤ power')
    (h : endsOperators c power ts = true) : endsOperators c power' ts = true := by
  unfold endsOperators at h ⊢
  cases hoperator : BinaryOperator.ofKind? (kind ts) with
  | none => simp
  | some operator =>
    rw [hoperator] at h
    simp only [Bool.or_eq_true, decide_eq_true_eq] at h ⊢
    exact h.imp_right fun hlevel => Nat.le_trans hlevel hle

/-- What may follow a printed formula: neither a call, a member or a suffix, nor a name. -/
structure Clear (c : Surroundings) (ts : List Token) : Prop where
  chain : endsChain c ts = true
  field : isField ts = false

theorem clear_operator (operator : BinaryOperator) (ts : List Token) :
    Clear c ((Lexeme.mark operator.kind).token :: ts) where
  chain := endsChain_operator operator ts
  field := by cases operator <;> rfl

theorem clear_of_endsElement {ts : List Token} (h : EndsElement ts) : Clear c ts where
  chain := h.stops.chain
  field := h.isField

/-- How the tokens of a printed formula are derived in front of what goes on with it: calls, members
and suffixes if it has no operator, and operators. -/
structure Derived (elseRequired : Bool) (f : Formula) : Prop where
  heads : f.operator? = none → ∀ {c q e r}, Yields elseRequired (.chain f.toExpr) c q e r →
    isField (tokens q ++ r) = false → Heads elseRequired c (f.print ++ q) e r
  expr : ∀ power {c s e r}, Yields elseRequired (.operators power f.toExpr) c s e r →
    (∀ o ∈ f.operator?, ¬o.level ≤ power ∧ endsOperators c o.level (tokens s ++ r) = true) →
    Clear c (tokens s ++ r) → Yields elseRequired (.expr power) c (f.print ++ s) e r

namespace Derived

variable {f : Formula}

/-- For a formula without an operator the calls, members and suffixes decide. -/
theorem of_heads (h : ∀ {c q e r}, Yields elseRequired (.chain f.toExpr) c q e r →
      isField (tokens q ++ r) = false → Heads elseRequired c (f.print ++ q) e r) :
    f.Derived elseRequired where
  heads _ := h
  expr _ _ _ _ _ hs _ hclear := by
    have hheads := h (.chainEnd hclear.chain) hclear.field
    rw [List.append_nil] at hheads
    exact hheads.expr hs

/-- A formula that is no part of another one. -/
theorem whole (h : f.Derived elseRequired) (hstops : Stops c r) (hclear : Clear c r) :
    Yields elseRequired (.expr .default) c f.print f.toExpr r := by
  have hexpr := h.expr .default (.operatorsEnd (hstops.operators _))
    (fun o _ => ⟨o.not_level_le_default, hstops.operators _⟩) hclear
  rwa [List.append_nil] at hexpr

/-- A formula in parentheses. -/
theorem grouped (h : f.Derived elseRequired)
    (hq : Yields elseRequired (.chain f.toExpr) c q e r) :
    Heads elseRequired c (enclose true f.print ++ q) e r :=
  ⟨_, f.toExpr, q, rfl, .parens (fun _ hr => h.whole hr.stops (clear_of_endsElement hr)) _, hq⟩

/-- A formula in front of a call, a member or a suffix. -/
theorem base (h : f.Derived elseRequired) (hq : Yields elseRequired (.chain f.toExpr) c q e r)
    (hfield : isField (tokens q ++ r) = false) :
    Heads elseRequired c (enclose f.operator?.isSome f.print ++ q) e r := by
  cases hoperator : f.operator? with
  | none => exact h.heads hoperator hq hfield
  | some operator => exact h.grouped hq

/-- A formula in front of operators. -/
theorem operand (h : f.Derived elseRequired) (needed : Bool)
    (hs : Yields elseRequired (.operators power f.toExpr) c s e r)
    (hneeded : needed = false →
      ∀ o ∈ f.operator?, ¬o.level ≤ power ∧ endsOperators c o.level (tokens s ++ r) = true)
    (hclear : Clear c (tokens s ++ r)) :
    Yields elseRequired (.expr power) c (enclose needed f.print ++ s) e r := by
  cases needed with
  | false => exact h.expr power hs (hneeded rfl) hclear
  | true =>
    have hheads := h.grouped (.chainEnd hclear.chain)
    rw [List.append_nil] at hheads
    exact hheads.expr hs

theorem label (name : Identifier) : (label name).Derived elseRequired := by
  refine .of_heads fun {c q e r} hq _ => ?_
  have hplain : plainLabel c (Lexeme.name name.text).token (tokens q ++ r) = true := by
    simp [plainLabel, Piece.keyword?_name, name.valid.plain]
  exact ⟨[.name name.text], _, q, rfl, ⟨_, rfl, .label hplain⟩, hq⟩

theorem binary {left right : Formula} {operator : BinaryOperator}
    (hleft : left.Derived elseRequired) (hright : right.Derived elseRequired) :
    (binary left operator right).Derived elseRequired where
  heads h := nomatch h
  expr {power c s e r} hs hends hclear := by
    obtain ⟨htighter, hend⟩ := hends operator rfl
    -- the right operand takes no operator of what follows, which none in it outdoes
    have hr := hright.operand
      (right.operator?.any fun o => o.level.rank ≤ operator.level.rank) (.operatorsEnd hend)
      (fun hneeded o ho => by
        rw [Option.mem_def.mp ho] at hneeded
        have hlevel : ¬o.level ≤ operator.level := of_decide_eq_false hneeded
        exact ⟨hlevel, endsOperators_of_le (Nat.le_of_lt (Nat.lt_of_not_le hlevel)) hend⟩)
      hclear
    rw [List.append_nil] at hr
    -- the left operand ends with the operator
    have hmore := Yields.binary htighter hr hs
    have hl := hleft.operand
      (left.operator?.any fun o => o.level.rank < operator.level.rank) hmore
      (fun hneeded o ho => by
        rw [Option.mem_def.mp ho] at hneeded
        have hlevel : operator.level ≤ o.level := Nat.le_of_not_lt (of_decide_eq_false hneeded)
        exact ⟨fun h => htighter (Nat.le_trans hlevel h), endsOperators_operator operator _ hlevel⟩)
      (clear_operator operator _)
    rw [print, List.append_assoc]
    exact hl

theorem member {base : Formula} (h : base.Derived elseRequired) (field : Identifier) :
    (base.member field).Derived elseRequired := by
  refine .of_heads fun {c q e r} hq _ => ?_
  rw [print, List.append_assoc]
  exact h.base (.member field.valid hq) rfl

theorem suffix {base : Formula} (h : base.Derived elseRequired) (operator : SuffixOperator) :
    (base.suffix operator).Derived elseRequired := by
  refine .of_heads fun {c q e r} hq hfield => ?_
  rw [print, List.append_assoc]
  exact h.base (.suffix hfield hq) (by cases operator <;> rfl)

theorem call {callee : Formula} {arguments : List Formula} (h : callee.Derived elseRequired)
    (harguments : Elements elseRequired .expr (toExprEach arguments) (printEach arguments)) :
    (callee.call arguments).Derived elseRequired := by
  refine .of_heads fun {c q e r} hq _ => ?_
  rw [print, List.append_assoc]
  exact h.base (.call harguments hq) rfl

end Derived

mutual

/-- The tokens of every printed formula are derived. -/
theorem derived : ∀ f : Formula, f.Derived elseRequired
  | label name => .label name
  | binary left _ right => .binary (derived left) (derived right)
  | call callee arguments => .call (derived callee) (elements_printEach arguments)
  | member base field => .member (derived base) field
  | suffix base operator => .suffix (derived base) operator

/-- The tokens of each printed formula are derived. -/
theorem elements_printEach : ∀ fs : List Formula,
    Elements elseRequired .expr (toExprEach fs) (printEach fs)
  | [] => .nil
  | f :: rest =>
    .cons (fun _ hr => .element ((derived f).whole hr.stops (clear_of_endsElement hr)))
      (elements_printEach rest)

end

end Derives

/-! ## The first tokens of a printed formula -/

section Starts

open Lookahead

variable {r : List Token}

theorem starts_enclose {p : List Piece} (needed : Bool)
    (h : ∃ t ts, Piece.tokens p = t :: ts ∧ t.keyword? = none) :
    ∃ t ts, Piece.tokens (enclose needed p) = t :: ts ∧ t.keyword? = none := by
  cases needed with
  | false => exact h
  | true => exact ⟨_, _, rfl, rfl⟩

/-- A printed formula begins with no keyword. -/
theorem starts_print : ∀ f : Formula,
    ∃ t ts, Piece.tokens f.print = t :: ts ∧ t.keyword? = none
  | label name => ⟨_, [], rfl, name.valid.plain⟩
  | binary left operator right => by
    obtain ⟨t, ts, hts, ht⟩ := starts_enclose
      (left.operator?.any fun o => o.level.rank < operator.level.rank) (starts_print left)
    exact ⟨t, _, by rw [print, Piece.tokens_append, hts]; rfl, ht⟩
  | call callee arguments => by
    obtain ⟨t, ts, hts, ht⟩ := starts_enclose callee.operator?.isSome (starts_print callee)
    exact ⟨t, _, by rw [print, Piece.tokens_append, hts]; rfl, ht⟩
  | member base field => by
    obtain ⟨t, ts, hts, ht⟩ := starts_enclose base.operator?.isSome (starts_print base)
    exact ⟨t, _, by rw [print, Piece.tokens_append, hts]; rfl, ht⟩
  | suffix base operator => by
    obtain ⟨t, ts, hts, ht⟩ := starts_enclose base.operator?.isSome (starts_print base)
    exact ⟨t, _, by rw [print, Piece.tokens_append, hts]; rfl, ht⟩

/-- Neither a colon nor an updater comes next. -/
def BindsNothing (ts : List Token) : Prop :=
  (kind ts = .colon || (kind ts).isUpdater) = false

theorem bindsLabel_enclose {p : List Piece} (needed : Bool)
    (h : bindsLabel (Piece.tokens p ++ r) = false) :
    bindsLabel (Piece.tokens (enclose needed p) ++ r) = false := by
  cases needed with
  | false => exact h
  | true => rfl

/-- A printed formula begins neither a declaration nor an update. -/
theorem bindsLabel_print : ∀ (f : Formula) {r : List Token}, BindsNothing r →
    bindsLabel (Piece.tokens f.print ++ r) = false
  | label name, r, hr => by simpa [BindsNothing, print, bindsLabel] using hr
  | binary left operator right, r, hr => by
    rw [print, Piece.tokens_append, List.append_assoc]
    refine bindsLabel_enclose _ (bindsLabel_print left ?_)
    cases operator <;> rfl
  | call callee arguments, r, hr => by
    rw [print, Piece.tokens_append, List.append_assoc]
    exact bindsLabel_enclose _ (bindsLabel_print callee rfl)
  | member base field, r, hr => by
    rw [print, Piece.tokens_append, List.append_assoc]
    exact bindsLabel_enclose _ (bindsLabel_print base rfl)
  | suffix base operator, r, hr => by
    rw [print, Piece.tokens_append, List.append_assoc]
    refine bindsLabel_enclose _ (bindsLabel_print base ?_)
    cases operator <;> rfl

end Starts

/-! ## Parsing a printed formula -/

/-- A printed formula is parsed, with all settings, to one statement with its tree. -/
theorem parse_print (f : Formula) (settings : Settings) :
    ∃ m, parse (Piece.source f.print) settings = .ok m ∧ m.bare = [.expression f.toExpr] := by
  have hstops : Stops .outside [] := stops_of_isPause rfl
  obtain ⟨u, hu, hexpr⟩ := (derived f).whole hstops ⟨hstops.chain, rfl⟩
  have hlabel : Lookahead.bindsLabel (words u ++ []) = false := by
    rw [hu]
    exact bindsLabel_print f rfl
  obtain ⟨t, ts, hts, ht⟩ := starts_print f
  have hwords : words u = t :: ts := hu.trans hts
  have hno : ∀ keyword, t.isKeyword keyword = false := by simp [Token.isKeyword, ht]
  have hplain : Derives settings.elseRequired (.statementExpr false) .outside u f.toExpr [] :=
    .plain hlabel (by simp [hwords, hno]) hexpr
  have hcontent : Derives settings.elseRequired .content .outside u (.expression f.toExpr) [] :=
    .expression (by simp [hwords, Lookahead.definesType, hno]) hplain
  have hkind : Lookahead.kind (words u ++ []) ≠ .eof := by
    intro heof
    have hmem := hcontent.kind_mem rfl
    rw [heof] at hmem
    exact absurd hmem (by decide)
  have hbody : Derives settings.elseRequired (.statements .eof) .outside (u ++ ([] ++ []))
      [.expression f.toExpr] [] :=
    .statement hkind hkind hcontent (.noSemicolon rfl) (.noStatement rfl (by decide))
  rw [List.append_nil, List.append_nil] at hbody
  exact Piece.parse_of_derives (Piece.Solid.recognised (solid_print f)) hu hbody

end Formula

end SurfaceGrammar

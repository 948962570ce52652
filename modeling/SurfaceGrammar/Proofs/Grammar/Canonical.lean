import SurfaceGrammar.Proofs.Grammar.Printing
import SurfaceGrammar.Proofs.Literal.Reading

/-!
# Canonical texts

Every well-formed tree has a canonical text. In it each expression but literals, labels,
declarations and updates stands in parentheses of its own, and a semicolon ends each statement. The
text is parsed to the tree again.

* `Expr.WellFormed`, `Stmt.WellFormed`: the trees that a text can spell.
* `Expr.write`, `Stmt.write`: the pieces of a tree.
* `Expr.solid_write`, `Stmt.recognised_writeEach`: the lexemes of a canonical text are recognised.
* `Expr.written`, `Stmt.yields_writeEach`: the tokens of a canonical text are derived.
* `Stmt.parse_writeEach`: a canonical text is parsed to its tree.
-/

namespace SurfaceGrammar

/-! ## Well-formed trees -/

mutual

/-- A text can spell the expression: its names are identifiers, its numbers are finite, and a
declaration or an update stands only in the place of a statement. -/
def Expr.WellFormed (asStatement : Bool) : Expr Unit → Prop
  | .literal value _ => value.IsFinite
  | .label name _ => IsIdentifier name
  | .sequence _ elements _ => Expr.EachWellFormed elements
  | .mapping entries _ => Entry.EachWellFormed entries
  | .object fields _ => Field.EachWellFormed fields
  | .function name parameters returnType body _ =>
    (∀ n ∈ name, IsIdentifier n) ∧ Parameter.EachWellFormed parameters ∧
      Expr.OptionWellFormed false returnType ∧ body.WellFormed
  | .call callee arguments _ => callee.WellFormed false ∧ Expr.EachWellFormed arguments
  | .member base field _ => base.WellFormed false ∧ IsIdentifier field
  | .binary left _ right _ => left.WellFormed false ∧ right.WellFormed false
  | .suffix base _ _ => base.WellFormed false
  | .conditional condition thenBranch elseBranch _ =>
    condition.WellFormed false ∧ thenBranch.WellFormed true ∧
      Expr.OptionWellFormed true elseBranch
  | .block _ body _ => Stmt.EachWellFormed body
  | .declaration name type value _ =>
    asStatement = true ∧ IsIdentifier name ∧ Expr.OptionWellFormed false type ∧
      value.WellFormed false
  | .update name _ value _ => asStatement = true ∧ IsIdentifier name ∧ value.WellFormed false

/-- A text can spell the body of a function. -/
def Body.WellFormed : Body Unit → Prop
  | .block statements => Stmt.EachWellFormed statements
  | .arrow value => value.WellFormed true

/-- A text can spell the statement. -/
def Stmt.WellFormed : Stmt Unit → Prop
  | .expression value => value.WellFormed true
  | .typeDefinition name definition _ => IsIdentifier name ∧ definition.WellFormed false

/-- A text can spell each expression. -/
def Expr.EachWellFormed : List (Expr Unit) → Prop
  | [] => True
  | e :: rest => e.WellFormed false ∧ Expr.EachWellFormed rest

/-- A text can spell the expression, if there is one. -/
def Expr.OptionWellFormed (asStatement : Bool) : Option (Expr Unit) → Prop
  | none => True
  | some e => e.WellFormed asStatement

/-- A text can spell each entry. -/
def Entry.EachWellFormed : List (Entry Unit) → Prop
  | [] => True
  | ⟨key, value, _⟩ :: rest =>
    key.WellFormed false ∧ value.WellFormed false ∧ Entry.EachWellFormed rest

/-- A text can spell each field. -/
def Field.EachWellFormed : List (Field Unit) → Prop
  | [] => True
  | ⟨label, value, _⟩ :: rest =>
    IsIdentifier label ∧ value.WellFormed false ∧ Field.EachWellFormed rest

/-- A text can spell each parameter. -/
def Parameter.EachWellFormed : List (Parameter Unit) → Prop
  | [] => True
  | ⟨label, type, _⟩ :: rest =>
    IsIdentifier label ∧ Expr.OptionWellFormed false type ∧ Parameter.EachWellFormed rest

/-- A text can spell each statement. -/
def Stmt.EachWellFormed : List (Stmt Unit) → Prop
  | [] => True
  | s :: rest => s.WellFormed ∧ Stmt.EachWellFormed rest

end

/-! ## The printer -/

open Piece in
mutual

/-- The pieces of an expression. -/
def Expr.write : Expr Unit → List Piece
  | .literal value _ => [lexeme (.literal value)]
  | .label text _ => [name text]
  | .sequence .tuple elements _ =>
    mark .openParen :: (commas true (Expr.writeEach elements) ++ [mark .closeParen])
  | .sequence .array elements _ =>
    parens (mark .openBracket :: (commas false (Expr.writeEach elements) ++ [mark .closeBracket]))
  | .sequence .set elements _ =>
    parens (word .set :: space :: mark .openCurly ::
      (commas false (Expr.writeEach elements) ++ [mark .closeCurly]))
  | .mapping entries _ =>
    parens (word .map :: space :: mark .openCurly ::
      (commas false (Entry.writeEach entries) ++ [mark .closeCurly]))
  | .object fields _ =>
    parens (mark .openCurly :: (commas false (Field.writeEach fields) ++ [mark .closeCurly]))
  | .function called parameters returnType body _ =>
    parens (word .fn :: space :: (called.toList.map name ++ mark .openParen ::
      (commas false (Parameter.writeEach parameters) ++ mark .closeParen ::
        (Expr.writeType returnType ++ space :: body.write))))
  | .call callee arguments _ =>
    parens (callee.write ++ mark .openParen ::
      (commas false (Expr.writeEach arguments) ++ [mark .closeParen]))
  | .member base field _ => parens (base.write ++ [mark .dot, name field])
  | .binary left operator right _ =>
    parens (left.write ++ space :: mark operator.kind :: space :: right.write)
  | .suffix base operator _ => parens (base.write ++ [mark operator.kind])
  | .conditional condition thenBranch elseBranch _ =>
    parens (word .if :: space :: (condition.write ++ space :: word .then :: space ::
      (thenBranch.write ++ Expr.writeElse elseBranch)))
  | .block kind body _ =>
    parens (word kind.keyword :: space :: mark .openCurly :: space ::
      (Stmt.writeEach body ++ [mark .closeCurly]))
  | .declaration text type value _ =>
    name text :: space :: mark .colon :: space ::
      (Expr.writeDeclaredType type ++ mark .assignment :: space :: value.write)
  | .update text operator value _ =>
    name text :: space :: mark operator.kind :: space :: value.write

/-- The pieces of the body of a function. -/
def Body.write : Body Unit → List Piece
  | .block statements =>
    mark .openCurly :: space :: (Stmt.writeEach statements ++ [mark .closeCurly])
  | .arrow value => mark .arrow :: space :: value.write

/-- The pieces of a statement without its end. -/
def Stmt.write : Stmt Unit → List Piece
  | .expression value => value.write
  | .typeDefinition text definition _ =>
    word .type :: space :: name text :: space :: mark .assignment :: space :: definition.write

/-- The pieces of each expression. -/
def Expr.writeEach : List (Expr Unit) → List (List Piece)
  | [] => []
  | e :: rest => e.write :: Expr.writeEach rest

/-- The pieces of a type after a colon. -/
def Expr.writeType : Option (Expr Unit) → List Piece
  | none => []
  | some type => space :: mark .colon :: space :: type.write

/-- The pieces of the type of a declaration. -/
def Expr.writeDeclaredType : Option (Expr Unit) → List Piece
  | none => []
  | some type => type.write ++ [space]

/-- The pieces of the branch for the other case. -/
def Expr.writeElse : Option (Expr Unit) → List Piece
  | none => []
  | some branch => space :: word .else :: space :: branch.write

/-- The pieces of each entry. -/
def Entry.writeEach : List (Entry Unit) → List (List Piece)
  | [] => []
  | ⟨key, value, _⟩ :: rest =>
    (key.write ++ space :: mark .colon :: space :: value.write) :: Entry.writeEach rest

/-- The pieces of each field. -/
def Field.writeEach : List (Field Unit) → List (List Piece)
  | [] => []
  | ⟨label, value, _⟩ :: rest =>
    (name label :: space :: mark .colon :: space :: value.write) :: Field.writeEach rest

/-- The pieces of each parameter. -/
def Parameter.writeEach : List (Parameter Unit) → List (List Piece)
  | [] => []
  | ⟨label, type, _⟩ :: rest => (name label :: Expr.writeType type) :: Parameter.writeEach rest

/-- The pieces of statements, each with its semicolon. -/
def Stmt.writeEach : List (Stmt Unit) → List Piece
  | [] => []
  | s :: rest => s.write ++ mark .semicolon :: space :: Stmt.writeEach rest

end

/-! ## Recognising a canonical text -/

section Recognised

open Piece

/-- Pieces that are recognised after a value, and with which no name and no number goes on. -/
def Trailing (p : List Piece) : Prop :=
  ∀ ps, Lexeme.endsWord (chars ps) = true → Recognised true ps →
    Recognised true (p ++ ps) ∧ Lexeme.endsWord (chars (p ++ ps)) = true

mutual

/-- The lexemes of an expression are recognised. -/
theorem Expr.solid_write : ∀ (e : Expr Unit) {asStatement : Bool}, e.WellFormed asStatement →
    Solid e.write
  | .literal value _, _, h => fun ps htail tail => by
    refine .lexeme (Lexeme.stands_literal h htail) ?_
    rwa [Lexeme.endsValue_literal]
  | .label text _, _, h => fun ps htail tail => .of_name h htail tail
  | .sequence .tuple elements _, _, h => fun ps htail tail => by
    have hlist := recognised_commas (.inl rfl) true tail (Expr.solid_writeEach elements h)
    rw [Expr.write, List.cons_append, List.append_assoc]
    exact .of_closed rfl hlist
  | .sequence .array elements _, _, h => Solid.parens fun ps htail tail => by
    have hlist := recognised_commas (.inr (.inl rfl)) false tail (Expr.solid_writeEach elements h)
    rw [List.cons_append, List.append_assoc]
    exact .of_closed rfl hlist
  | .sequence .set elements _, _, h => Solid.parens fun ps htail tail => by
    have hlist := recognised_commas (.inr (.inr rfl)) false tail (Expr.solid_writeEach elements h)
    simp only [List.cons_append, List.append_assoc]
    exact .of_word (.of_closed rfl hlist)
  | .mapping entries _, _, h => Solid.parens fun ps htail tail => by
    have hlist := recognised_commas (.inr (.inr rfl)) false tail (Entry.solid_writeEach entries h)
    simp only [List.cons_append, List.append_assoc]
    exact .of_word (.of_closed rfl hlist)
  | .object fields _, _, h => Solid.parens fun ps htail tail => by
    have hlist := recognised_commas (.inr (.inr rfl)) false tail (Field.solid_writeEach fields h)
    simp only [List.cons_append, List.append_assoc]
    exact .of_closed rfl hlist
  | .function called parameters returnType body _, _, h => Solid.parens fun ps htail tail => by
    obtain ⟨hname, hparameters, htype, hbody⟩ := h
    have hwritten : Recognised true (body.write ++ ps) :=
      Body.recognised_write body hbody htail tail
    obtain ⟨hreturn, -⟩ := Expr.trailing_writeType returnType htype _ rfl (.space hwritten)
    have hlist := recognised_commas (.inl rfl) false hreturn
      (Parameter.solid_writeEach parameters hparameters)
    simp only [List.cons_append, List.append_assoc]
    cases called with
    | none => exact .of_word (.of_closed rfl hlist)
    | some text => exact .of_word (.of_name (hname text rfl) rfl (.of_closed rfl hlist))
  | .call callee arguments _, _, h => Solid.parens fun ps htail tail => by
    have hlist := recognised_commas (.inl rfl) false tail (Expr.solid_writeEach arguments h.2)
    simp only [List.cons_append, List.append_assoc]
    exact Expr.solid_write callee h.1 _ rfl (.of_closed rfl hlist)
  | .member base field _, _, h => Solid.parens fun ps htail tail => by
    rw [List.append_assoc]
    refine Expr.solid_write base h.1 _ (Lexeme.endsWord_point_name h.2.name) ?_
    exact .of_closed rfl (.of_name h.2 htail tail)
  | .binary left operator right _, _, h => Solid.parens fun ps htail tail => by
    rw [List.append_assoc]
    refine Expr.solid_write left h.1 _ rfl (.space (.of_mark operator.kind_mem ?_))
    rw [operator.endsValue_mark]
    exact Expr.solid_write right h.2 _ htail tail
  | .suffix base operator _, _, h => Solid.parens fun ps htail tail => by
    rw [List.append_assoc]
    refine Expr.solid_write base h _ (operator.endsWord_mark htail) ?_
    exact .of_closed operator.isClosed_kind (by rwa [operator.endsValue_mark])
  | .conditional condition thenBranch elseBranch _, _, h => Solid.parens fun ps htail tail => by
    obtain ⟨helse, hword⟩ := Expr.trailing_writeElse elseBranch h.2.2 ps htail tail
    have hthen := Expr.solid_write thenBranch h.2.1 _ hword helse
    simp only [List.cons_append, List.append_assoc]
    exact .of_word (Expr.solid_write condition h.1 _ rfl (.space (.of_word hthen)))
  | .block kind body _, _, h => Solid.parens fun ps htail tail => by
    simp only [List.cons_append, List.append_assoc]
    exact .of_word (.of_closed rfl (.space (Stmt.recognised_writeEach body h
      (.of_closed rfl tail))))
  | .declaration text type value _, _, h => fun ps htail tail => by
    obtain ⟨-, hname, htype, hvalue⟩ := h
    have hwritten := Expr.solid_write value hvalue ps htail tail
    have hassignment : ∀ afterValue,
        Recognised afterValue (mark .assignment :: space :: (value.write ++ ps)) :=
      fun _ => .of_mark (by decide) hwritten
    have hdeclared := Expr.recognised_writeDeclaredType type htype hassignment
    simp only [Expr.write, List.cons_append, List.append_assoc]
    exact .of_name hname rfl (.space (.of_mark (by decide) hdeclared))
  | .update text operator value _, _, h => fun ps htail tail => by
    obtain ⟨-, hname, hvalue⟩ := h
    refine .of_name hname rfl (.space (.of_mark operator.kind_mem ?_))
    rw [operator.endsValue_mark]
    exact Expr.solid_write value hvalue ps htail tail

/-- The lexemes of the body of a function are recognised. -/
theorem Body.recognised_write : ∀ b : Body Unit, b.WellFormed → ∀ {afterValue : Bool}
    {ps : List Piece}, Lexeme.endsWord (chars ps) = true → Recognised true ps →
      Recognised afterValue (b.write ++ ps)
  | .block statements, h, _, _, _, tail => by
    simp only [Body.write, List.cons_append, List.append_assoc]
    exact .of_closed rfl (.space (Stmt.recognised_writeEach statements h (.of_closed rfl tail)))
  | .arrow value, h, _, _, htail, tail =>
    .of_mark (by decide) (Expr.solid_write value h _ htail tail)

/-- The lexemes of a statement are recognised. -/
theorem Stmt.solid_write : ∀ s : Stmt Unit, s.WellFormed → Solid s.write
  | .expression value, h => Expr.solid_write value h
  | .typeDefinition text definition _, h => fun ps htail tail => by
    have hdefinition := Expr.solid_write definition h.2 ps htail tail
    exact .of_word (.of_name h.1 rfl (.space (.of_mark (by decide) hdefinition)))

/-- The lexemes of each expression are recognised. -/
theorem Expr.solid_writeEach : ∀ es : List (Expr Unit), Expr.EachWellFormed es →
    ∀ p ∈ Expr.writeEach es, Solid p
  | [], _ => nofun
  | e :: rest, h =>
    List.forall_mem_cons.mpr ⟨Expr.solid_write e h.1, Expr.solid_writeEach rest h.2⟩

/-- The lexemes of a type after a colon are recognised. -/
theorem Expr.trailing_writeType : ∀ type : Option (Expr Unit), Expr.OptionWellFormed false type →
    Trailing (Expr.writeType type)
  | none, _ => fun _ htail tail => ⟨tail, htail⟩
  | some type, h => fun ps htail tail =>
    ⟨.space (.of_mark (by decide) (Expr.solid_write type h ps htail tail)), rfl⟩

/-- The lexemes of the type of a declaration are recognised. -/
theorem Expr.recognised_writeDeclaredType : ∀ type : Option (Expr Unit),
    Expr.OptionWellFormed false type → ∀ {ps : List Piece},
      (∀ afterValue, Recognised afterValue ps) →
        Recognised false (Expr.writeDeclaredType type ++ ps)
  | none, _, _, tail => tail false
  | some type, h, _, tail => by
    rw [Expr.writeDeclaredType, List.append_assoc]
    exact Expr.solid_write type h _ rfl (.space (tail true))

/-- The lexemes of the branch for the other case are recognised. -/
theorem Expr.trailing_writeElse : ∀ branch : Option (Expr Unit),
    Expr.OptionWellFormed true branch → Trailing (Expr.writeElse branch)
  | none, _ => fun _ htail tail => ⟨tail, htail⟩
  | some branch, h => fun ps htail tail =>
    ⟨.space (.of_word (Expr.solid_write branch h ps htail tail)), rfl⟩

/-- The lexemes of each entry are recognised. -/
theorem Entry.solid_writeEach : ∀ es : List (Entry Unit), Entry.EachWellFormed es →
    ∀ p ∈ Entry.writeEach es, Solid p
  | [], _ => nofun
  | ⟨key, value, _⟩ :: rest, h => by
    refine List.forall_mem_cons.mpr ⟨fun ps htail tail => ?_, Entry.solid_writeEach rest h.2.2⟩
    have hvalue := Expr.solid_write value h.2.1 ps htail tail
    rw [List.append_assoc]
    exact Expr.solid_write key h.1 _ rfl (.space (.of_mark (by decide) hvalue))

/-- The lexemes of each field are recognised. -/
theorem Field.solid_writeEach : ∀ fs : List (Field Unit), Field.EachWellFormed fs →
    ∀ p ∈ Field.writeEach fs, Solid p
  | [], _ => nofun
  | ⟨label, value, _⟩ :: rest, h => by
    refine List.forall_mem_cons.mpr ⟨fun ps htail tail => ?_, Field.solid_writeEach rest h.2.2⟩
    have hvalue := Expr.solid_write value h.2.1 ps htail tail
    exact .of_name h.1 rfl (.space (.of_mark (by decide) hvalue))

/-- The lexemes of each parameter are recognised. -/
theorem Parameter.solid_writeEach : ∀ ps : List (Parameter Unit), Parameter.EachWellFormed ps →
    ∀ p ∈ Parameter.writeEach ps, Solid p
  | [], _ => nofun
  | ⟨label, type, _⟩ :: rest, h => by
    refine List.forall_mem_cons.mpr
      ⟨fun ps htail tail => ?_, Parameter.solid_writeEach rest h.2.2⟩
    obtain ⟨htype, hword⟩ := Expr.trailing_writeType type h.2.1 ps htail tail
    exact .of_name h.1 hword htype

/-- The lexemes of statements are recognised. -/
theorem Stmt.recognised_writeEach : ∀ (ss : List (Stmt Unit)), Stmt.EachWellFormed ss →
    ∀ {ps : List Piece}, Recognised false ps → Recognised false (Stmt.writeEach ss ++ ps)
  | [], _, _, tail => tail
  | s :: rest, h, _, tail => by
    rw [Stmt.writeEach, List.append_assoc]
    refine Stmt.solid_write s h.1 _ rfl (.of_closed rfl (.space ?_))
    exact Stmt.recognised_writeEach rest h.2 tail

end

end Recognised

/-! ## Deriving the forms of expressions -/

/-- What comes after an expression in the place of a statement. -/
def EndsBranch (ts : List Token) : Prop :=
  EndsElement ts ∨ Lookahead.kind ts = .semicolon ∨ Lookahead.kind ts = .identifier

theorem EndsBranch.stops {c : Surroundings} {ts : List Token} (h : EndsBranch ts) :
    Stops c ts := by
  obtain h | h | h := h
  · exact h.stops
  · exact stops_of_isPause (by rw [h]; rfl)
  · exact stops_of_isPause (by rw [h]; rfl)

/-- No label is bound in front of the end of a branch. -/
theorem EndsBranch.binds {ts : List Token} (h : EndsBranch ts) :
    Lookahead.kind ts ≠ .colon ∧ (Lookahead.kind ts).isUpdater = false := by
  obtain (h | h | h | h) | h | h := h <;> rw [h] <;> exact ⟨nofun, rfl⟩

namespace Yields

open Piece Lookahead

variable {elseRequired : Bool} {c : Surroundings} {e : Expr Unit} {es : List (Expr Unit)}
  {p q : List Piece} {ps : List (List Piece)} {r : List Token}

theorem literal {value : Literal} (h : value.IsFinite) :
    Yields elseRequired .primary c [.lexeme (.literal value)] (.literal value ()) r := by
  refine ⟨[c.leaf (Lexeme.literal value).token], rfl, ?_⟩
  match value with
  | .number x =>
    refine .number rfl ?_
    have hread : Decimal.read? (Lexeme.literal (.number x)).token.value.toList = some x := by
      simp [Lexeme.literal, Lexeme.token, Decimal.read?_write h]
    have hfinite : x.isFinite = true := h
    rw [hread]
    simp [Option.filter, hfinite]
  | .string text => exact .string rfl
  | .char x => exact .char rfl (by simp [Lexeme.literal, Lexeme.token])
  | .boolean true => exact .boolean true (keyword?_word .true)
  | .boolean false => exact .boolean false (keyword?_word .false)

theorem label {text : String} (h : IsIdentifier text) :
    Yields elseRequired .primary c [.name text] (.label text ()) r := by
  refine ⟨[c.leaf (Lexeme.name text).token], rfl, .label ?_⟩
  simp [plainLabel, keyword?_name, h.plain]

theorem tuple (h : Elements elseRequired .expr es ps) :
    Yields elseRequired .primary c (.mark .openParen :: (commas true ps ++ [.mark .closeParen]))
      (.sequence .tuple es ()) r := by
  obtain ⟨comma, hcomma, u, hu, hlist⟩ := h.delimited (.inl rfl) true c r
  refine ⟨c.leaf (Lexeme.mark .openParen).token :: u, by simpa using hu, .tuple rfl hlist ?_⟩
  intro hlength
  apply hcomma
  rintro rfl
  cases hlength

theorem array (h : Elements elseRequired .expr es ps) :
    Yields elseRequired .primary c
      (.mark .openBracket :: (commas false ps ++ [.mark .closeBracket]))
      (.sequence .array es ()) r := by
  obtain ⟨comma, -, u, hu, hlist⟩ := h.delimited (.inr (.inl rfl)) false c r
  exact ⟨c.leaf (Lexeme.mark .openBracket).token :: u, by simpa using hu, .array rfl hlist⟩

theorem set (h : Elements elseRequired .expr es ps) (hc : c.returnType = false) :
    Yields elseRequired .primary c
      (.word .set :: .space :: .mark .openCurly :: (commas false ps ++ [.mark .closeCurly]))
      (.sequence .set es ()) r := by
  obtain ⟨comma, -, u, hu, hlist⟩ := h.delimited (.inr (.inr rfl)) false c r
  exact ⟨c.leaf (Lexeme.name Keyword.set.spelling).token ::
    c.leaf (Lexeme.mark .openCurly).token :: u, by simpa using hu,
    .set (keyword?_word .set) hc rfl hlist⟩

theorem mapping {es : List (Entry Unit)} (h : Elements elseRequired .entry es ps)
    (hc : c.returnType = false) :
    Yields elseRequired .primary c
      (.word .map :: .space :: .mark .openCurly :: (commas false ps ++ [.mark .closeCurly]))
      (.mapping es ()) r := by
  obtain ⟨comma, -, u, hu, hlist⟩ := h.delimited (.inr (.inr rfl)) false c r
  exact ⟨c.leaf (Lexeme.name Keyword.map.spelling).token ::
    c.leaf (Lexeme.mark .openCurly).token :: u, by simpa using hu,
    .mapping (keyword?_word .map) hc rfl hlist⟩

theorem object {fs : List (Field Unit)} (h : Elements elseRequired .field fs ps) :
    Yields elseRequired .primary c (.mark .openCurly :: (commas false ps ++ [.mark .closeCurly]))
      (.object fs ()) r := by
  obtain ⟨comma, -, u, hu, hlist⟩ := h.delimited (.inr (.inr rfl)) false c r
  exact ⟨c.leaf (Lexeme.mark .openCurly).token :: u, by simpa using hu, .object rfl hlist⟩

theorem blockBody {body : List (Stmt Unit)}
    (h : Yields elseRequired (.statements .closeCurly) c.block p body
      ((Lexeme.mark .closeCurly).token :: r)) :
    Yields elseRequired .blockBody c (.mark .openCurly :: .space :: (p ++ [.mark .closeCurly]))
      body r := by
  obtain ⟨u, hu, hbody⟩ := h
  exact ⟨c.leaf (Lexeme.mark .openCurly).token ::
    (u ++ [c.block.leaf (Lexeme.mark .closeCurly).token]), by simp [hu],
    .blockBody rfl hbody rfl⟩

theorem block {kind : BlockKind} {body : List (Stmt Unit)}
    (h : Yields elseRequired .blockBody c p body r) (hc : c.returnType = false) :
    Yields elseRequired .primary c (.word kind.keyword :: .space :: p) (.block kind body ()) r := by
  obtain ⟨u, hu, hbody⟩ := h
  exact ⟨c.leaf (Lexeme.name kind.keyword.spelling).token :: u, by simpa using hu,
    .block kind (keyword?_word kind.keyword) hc hbody⟩

/-- A function, with its parameters between the parentheses. -/
theorem function {called : Option String} {parameters : List (Parameter Unit)}
    {type : Option (Expr Unit)} {body : Body Unit}
    (hparameters : Elements elseRequired .parameter parameters ps)
    (htype : Yields elseRequired .typeAfterColon (c.typing true) p type (tokens q ++ r))
    (hbody : Yields elseRequired .functionBody (c.typing false) q body r) :
    Yields elseRequired .primary c
      (.word .fn :: .space :: (called.toList.map .name ++ .mark .openParen ::
        (commas false ps ++ .mark .closeParen :: (p ++ .space :: q))))
      (.function called parameters type body ()) r := by
  obtain ⟨wb, hwb, hbody⟩ := hbody
  obtain ⟨wt, hwt, htype⟩ := htype
  obtain ⟨comma, -, wp, hwp, hlist⟩ :=
    hparameters.delimited (.inl rfl) false c (words wt ++ (words wb ++ r))
  rw [← hwb] at htype
  have hvalue : (called.map fun n => (Lexeme.name n).token).map Token.value = called := by
    cases called <;> rfl
  have hfunction : Derives elseRequired .primary c
      (c.leaf (Lexeme.name Keyword.fn.spelling).token ::
        ((called.map fun n => (Lexeme.name n).token).toList.map c.leaf ++
          c.leaf (Lexeme.mark .openParen).token :: (wp ++ (wt ++ wb))))
      (.function ((called.map fun n => (Lexeme.name n).token).map Token.value) parameters type body
        ()) r :=
    .function (keyword?_word .fn) (by simp) rfl hlist htype hbody
  rw [hvalue] at hfunction
  simp only [tokens_append, tokens_mark, tokens_nil] at hwp
  refine ⟨_, ?_, hfunction⟩
  cases called <;> simp [hwp, hwt, hwb]

/-- A conditional, with its parts between its words. -/
theorem conditional {valueRequired : Bool} {s : List Piece} {condition thenBranch : Expr Unit}
    {elseBranch : Option (Expr Unit)}
    (hcondition : ∀ r, EndsBranch r → Yields elseRequired (.expr .default) c p condition r)
    (hthen : Yields elseRequired (.statementExpr valueRequired) c q thenBranch (tokens s ++ r))
    (helse : Yields elseRequired (.elseBranch valueRequired) c s elseBranch r) :
    Yields elseRequired (.conditional valueRequired) c
      (.word .if :: .space :: (p ++ .space :: .word .then :: .space :: (q ++ s)))
      (.conditional condition thenBranch elseBranch ()) r := by
  obtain ⟨we, hwe, helse⟩ := helse
  obtain ⟨wt, hwt, hthen⟩ := hthen
  obtain ⟨wc, hwc, hcondition⟩ := hcondition
    ((Lexeme.name Keyword.then.spelling).token :: (words wt ++ (words we ++ r))) (.inr (.inr rfl))
  rw [← hwe] at hthen
  have hword : (Lexeme.name Keyword.then.spelling).token.isKeyword .then = true :=
    Token.isKeyword_iff.mpr (keyword?_word .then)
  refine ⟨c.leaf (Lexeme.name Keyword.if.spelling).token ::
    (wc ++ ([c.leaf (Lexeme.name Keyword.then.spelling).token] ++ (wt ++ we))), ?_, ?_⟩
  · simp [hwc, hwt, hwe]
  · exact .conditional (keyword?_word .if) hcondition (.thenPresent hword) hthen helse

theorem elseBranch {valueRequired : Bool}
    (h : Yields elseRequired (.statementExpr valueRequired) c p e r) :
    Yields elseRequired (.elseBranch valueRequired) c (.space :: .word .else :: .space :: p)
      (some e) r := by
  obtain ⟨u, hu, hbranch⟩ := h
  exact ⟨c.leaf (Lexeme.name Keyword.else.spelling).token :: u, by simpa using hu,
    .elsePresent (Token.isKeyword_iff.mpr (keyword?_word .else)) hbranch⟩

theorem typeAfterColon (h : Yields elseRequired (.expr .default) c p e r) :
    Yields elseRequired .typeAfterColon c (.space :: .mark .colon :: .space :: p) (some e) r := by
  obtain ⟨u, hu, htype⟩ := h
  exact ⟨c.leaf (Lexeme.mark .colon).token :: u, by simpa using hu, .typePresent rfl htype⟩

theorem declaration {text : String} {type : Option (Expr Unit)}
    (htype : ∀ r, kind r = .assignment → Yields elseRequired .declaredType c p type r)
    (hvalue : Yields elseRequired (.expr .default) c q e r) :
    Yields elseRequired .declaration c
      (.name text :: .space :: .mark .colon :: .space ::
        (p ++ .mark .assignment :: .space :: q)) (.declaration text type e ()) r := by
  obtain ⟨wv, hwv, hvalue⟩ := hvalue
  obtain ⟨wt, hwt, htype⟩ := htype ((Lexeme.mark .assignment).token :: (words wv ++ r)) rfl
  refine ⟨c.leaf (Lexeme.name text).token :: c.leaf (Lexeme.mark .colon).token ::
    (wt ++ c.leaf (Lexeme.mark .assignment).token :: wv), by simp [hwt, hwv], ?_⟩
  exact .declaration rfl rfl htype rfl hvalue

theorem update {text : String} {operator : Updater}
    (hvalue : Yields elseRequired (.expr .default) c p e r) :
    Yields elseRequired .update c (.name text :: .space :: .mark operator.kind :: .space :: p)
      (.update text operator e ()) r := by
  obtain ⟨u, hu, hvalue⟩ := hvalue
  exact ⟨c.leaf (Lexeme.name text).token :: c.leaf (Lexeme.mark operator.kind).token :: u,
    by simpa using hu, .update rfl operator.ofKind?_kind hvalue⟩

theorem entry {key : Expr Unit}
    (hkey : ∀ r, kind r = .colon → Yields elseRequired (.expr .default) c p key r)
    (hvalue : Yields elseRequired (.expr .default) c q e r) :
    Yields elseRequired (.element .entry) c (p ++ .space :: .mark .colon :: .space :: q)
      ⟨key, e, ()⟩ r := by
  obtain ⟨v, hv, hvalue⟩ := hvalue
  obtain ⟨u, hu, hkey⟩ := hkey ((Lexeme.mark .colon).token :: (words v ++ r)) rfl
  exact ⟨u ++ c.leaf (Lexeme.mark .colon).token :: v, by simp [hu, hv], .entry hkey rfl hvalue⟩

theorem field {text : String} (hvalue : Yields elseRequired (.expr .default) c p e r) :
    Yields elseRequired (.element .field) c (.name text :: .space :: .mark .colon :: .space :: p)
      ⟨text, e, ()⟩ r := by
  obtain ⟨u, hu, hvalue⟩ := hvalue
  exact ⟨c.leaf (Lexeme.name text).token :: c.leaf (Lexeme.mark .colon).token :: u,
    by simpa using hu, .field rfl rfl hvalue⟩

theorem parameter {text : String} {type : Option (Expr Unit)}
    (htype : Yields elseRequired .typeAfterColon c p type r) :
    Yields elseRequired (.element .parameter) c (.name text :: p) ⟨text, type, ()⟩ r := by
  obtain ⟨u, hu, htype⟩ := htype
  exact ⟨c.leaf (Lexeme.name text).token :: u, by simpa using hu, .parameter rfl htype⟩

theorem conditionalValue (h : Yields elseRequired (.conditional true) c p e r) :
    Yields elseRequired .primary c p e r := by
  obtain ⟨u, hu, hconditional⟩ := h
  exact ⟨u, hu, .conditionalValue hconditional⟩

theorem declared {valueRequired : Bool} (h : Yields elseRequired .declaration c p e r) :
    Yields elseRequired (.statementExpr valueRequired) c p e r := by
  obtain ⟨u, hu, hdeclaration⟩ := h
  exact ⟨u, hu, .declared hdeclaration⟩

theorem updated {valueRequired : Bool} (h : Yields elseRequired .update c p e r) :
    Yields elseRequired (.statementExpr valueRequired) c p e r := by
  obtain ⟨u, hu, hupdate⟩ := h
  exact ⟨u, hu, .updated hupdate⟩

theorem declaredType (h : Yields elseRequired (.expr .default) c p e r) :
    Yields elseRequired .declaredType c (p ++ [.space]) (some e) r := by
  obtain ⟨u, hu, htype⟩ := h
  exact ⟨u, by simp [hu], .declaredTypePresent htype⟩

theorem statementBody {body : List (Stmt Unit)} (h : Yields elseRequired .blockBody c p body r) :
    Yields elseRequired .functionBody c p (.block body) r := by
  obtain ⟨u, hu, hbody⟩ := h
  exact ⟨u, hu, .statementBody hbody⟩

theorem arrowBody (h : Yields elseRequired (.statementExpr true) c p e r) :
    Yields elseRequired .functionBody c (.mark .arrow :: .space :: p) (.arrow e) r := by
  obtain ⟨u, hu, hvalue⟩ := h
  exact ⟨c.leaf (Lexeme.mark .arrow).token :: u, by simpa using hu, .arrowBody rfl hvalue⟩

theorem typeDefinition {text : String} (h : Yields elseRequired (.expr .default) c p e r) :
    Yields elseRequired .content c
      (.word .type :: .space :: .name text :: .space :: .mark .assignment :: .space :: p)
      (.typeDefinition text e ()) r := by
  obtain ⟨u, hu, hdefinition⟩ := h
  exact ⟨c.leaf (Lexeme.name Keyword.type.spelling).token :: c.leaf (Lexeme.name text).token ::
    c.leaf (Lexeme.mark .assignment).token :: u, by simpa using hu,
    .typeDefinition (Token.isKeyword_iff.mpr (keyword?_word .type)) rfl rfl rfl hdefinition⟩

/-- A statement with its semicolon, in front of others. -/
theorem statement {s : Stmt Unit} {rest : List (Stmt Unit)} {close : TokenKind}
    (hclose : close = .eof ∨ close = .closeCurly)
    (hs : ∀ r, kind r = .semicolon → Yields elseRequired .content c p s r)
    (hrest : Yields elseRequired (.statements close) c q rest r) :
    Yields elseRequired (.statements close) c (p ++ .mark .semicolon :: .space :: q) (s :: rest)
      r := by
  obtain ⟨v, hv, hrest⟩ := hrest
  obtain ⟨u, hu, hcontent⟩ := hs ((Lexeme.mark .semicolon).token :: (words v ++ r)) rfl
  have hmem := hcontent.kind_mem rfl
  have hne : ∀ kind ∉ expressionStart,
      Lookahead.kind (words u ++ (Lexeme.mark .semicolon).token :: (words v ++ r)) ≠ kind := by
    rintro kind hkind rfl
    exact hkind hmem
  refine ⟨u ++ ([c.leaf (Lexeme.mark .semicolon).token] ++ v), by simp [hu, hv],
    .statement ?_ (hne _ (by decide)) hcontent (.semicolon rfl) hrest⟩
  obtain rfl | rfl := hclose <;> exact hne _ (by decide)

end Yields

/-! ## Deriving a canonical text -/

section Derives

open Piece Lookahead

/-- A canonical expression begins with no keyword that decides about what it is. If it is neither a
declaration nor an update, it is one literal or label, or it begins with a parenthesis. -/
theorem Expr.starts_write {asStatement : Bool} : ∀ e : Expr Unit, e.WellFormed asStatement →
    ∃ t ts, tokens e.write = t :: ts ∧ t.isKeyword .if = false ∧ t.isKeyword .type = false ∧
      (asStatement = false → ts = [] ∨ t.kind = .openParen)
  | .literal value _, _ => by
    refine ⟨(Lexeme.literal value).token, [], rfl, ?_⟩
    match value with
    | .number _ | .string _ | .char _ => exact ⟨rfl, rfl, fun _ => .inl rfl⟩
    | .boolean true | .boolean false => exact ⟨by decide, by decide, fun _ => .inl rfl⟩
  | .label text _, h => by
    refine ⟨(Lexeme.name text).token, [], rfl, ?_⟩
    simp [Token.isKeyword, keyword?_name, IsIdentifier.plain h]
  | .declaration text _ _ _, ⟨hplace, hname, _⟩ | .update text _ _ _, ⟨hplace, hname, _⟩ => by
    refine ⟨(Lexeme.name text).token, _, rfl, ?_⟩
    simp [Token.isKeyword, keyword?_name, hname.plain, hplace]
  | .sequence .tuple _ _, _ | .sequence .array _ _, _ | .sequence .set _ _, _ | .mapping _ _, _
  | .object _ _, _ | .function _ _ _ _ _, _ | .call _ _ _, _ | .member _ _ _, _
  | .binary _ _ _ _, _ | .suffix _ _ _, _ | .conditional _ _ _ _, _ | .block _ _ _, _ =>
    ⟨_, _, rfl, rfl, rfl, fun _ => .inr rfl⟩

/-- The body of a function begins with a mark that ends its type. -/
theorem Body.starts_write (b : Body Unit) (r : List Token) :
    kind (tokens b.write ++ r) ≠ .colon ∧ (kind (tokens b.write ++ r)).isPause = true := by
  cases b <;> exact ⟨nofun, rfl⟩

/-- How the tokens of a canonical expression are derived. -/
structure Expr.Printed (e : Expr Unit) : Prop where
  primary : e.WellFormed false → ∀ c r, Yields false .primary c e.write e r
  statement : e.WellFormed true → ∀ valueRequired c r, EndsBranch r →
    Yields false (.statementExpr valueRequired) c e.write e r

namespace Expr.Printed

variable {e : Expr Unit}

/-- An expression that goes on with nothing. -/
theorem expr (h : e.Printed) (he : e.WellFormed false) {power : Power} {c : Surroundings}
    {r : List Token} (hstops : Stops c r) : Yields false (.expr power) c e.write e r :=
  .expr_of_primary hstops (h.primary he c r)

/-- What is neither a declaration nor an update is the same in the place of a statement. -/
theorem of_primary (hplace : e.WellFormed true → e.WellFormed false)
    (h : e.WellFormed false → ∀ c r, Yields false .primary c e.write e r) : e.Printed where
  primary := h
  statement hwell valueRequired c r hr := by
    have he := hplace hwell
    obtain ⟨t, ts, hts, hif, -, hfirst⟩ := e.starts_write he
    obtain ⟨u, hu, hexpr⟩ : Yields false (.expr .default) c e.write e r :=
      .expr_of_primary hr.stops (h he c r)
    have hwords : words u = t :: ts := hu.trans hts
    refine ⟨u, hu, .plain ?_ (by simp [hwords, hif]) hexpr⟩
    rw [hwords]
    obtain rfl | hopen := hfirst rfl
    · simp [bindsLabel, hr.binds]
    · simp [bindsLabel, hopen]

/-- An expression in parentheses, from what is in them. -/
theorem of_parens {p : List Piece} (hwrite : e.write = parens p)
    (hplace : e.WellFormed true → e.WellFormed false)
    (h : e.WellFormed false → ∀ r, EndsElement r → Yields false (.expr .default) .inside p e r) :
    e.Printed :=
  of_primary hplace fun he c r => by
    rw [hwrite]
    exact .parens (h he) r

end Expr.Printed

theorem Yields.chain_of_primary {e left : Expr Unit} {p q : List Piece} {r : List Token}
    {c : Surroundings} (hp : ∀ r, Yields false .primary c p e r) (hstops : Stops c r)
    (hq : Yields false (.chain e) c q left r) :
    Yields false (.expr .default) c (p ++ q) left r := by
  have hexpr : Yields false (.expr .default) c (p ++ (q ++ [])) left r :=
    .expr (hp _) hq (.operatorsEnd (hstops.operators _))
  rwa [List.append_nil] at hexpr

mutual

/-- The tokens of every canonical expression are derived. -/
theorem Expr.printed : ∀ e : Expr Unit, e.Printed
  | .literal value _ => .of_primary id fun h _ _ => .literal h
  | .label text _ => .of_primary id fun h _ _ => .label h
  | .sequence .tuple elements _ => .of_primary id fun h _ _ => .tuple (Expr.elements elements h)
  | .sequence .array elements _ => .of_parens rfl id fun h _ hr =>
    .expr_of_primary hr.stops (.array (Expr.elements elements h))
  | .sequence .set elements _ => .of_parens rfl id fun h _ hr =>
    .expr_of_primary hr.stops (.set (Expr.elements elements h) rfl)
  | .mapping entries _ => .of_parens rfl id fun h _ hr =>
    .expr_of_primary hr.stops (.mapping (Entry.elements entries h) rfl)
  | .object fields _ => .of_parens rfl id fun h _ hr =>
    .expr_of_primary hr.stops (.object (Field.elements fields h))
  | .function called parameters returnType body _ => .of_parens rfl id fun h r hr => by
    obtain ⟨-, hparameters, htype, hbody⟩ := h
    refine .expr_of_primary hr.stops (.function (Parameter.elements parameters hparameters) ?_
      (Body.printed body hbody _ r hr))
    obtain ⟨hcolon, hpause⟩ := Body.starts_write body r
    exact Expr.printed_writeType returnType htype _ _ hcolon (stops_of_isPause hpause)
  | .call callee arguments _ => .of_parens rfl id fun h r hr => by
    have hmore : Yields false (.chain (.call callee arguments ())) .inside [] _ r :=
      .chainEnd hr.stops.chain
    have hcall := Yields.call (Expr.elements arguments h.2) hmore
    rw [List.append_nil] at hcall
    exact .chain_of_primary ((Expr.printed callee).primary h.1 _) hr.stops hcall
  | .member base field _ => .of_parens rfl id fun h r hr =>
    .chain_of_primary ((Expr.printed base).primary h.1 _) hr.stops
      (.member h.2 (.chainEnd hr.stops.chain))
  | .binary left operator right _ => .of_parens rfl id fun h r hr => by
    have hright : Yields false (.expr operator.level) .inside right.write right (tokens [] ++ r) :=
      (Expr.printed right).expr h.2 hr.stops
    have hmore : Yields false (.operators .default left) .inside
        (space :: mark operator.kind :: space :: (right.write ++ []))
        (.binary left operator right ()) r :=
      .binary operator.not_level_le_default hright (.operatorsEnd (hr.stops.operators _))
    rw [List.append_nil] at hmore
    exact .expr ((Expr.printed left).primary h.1 _ _) (.chainEnd (endsChain_operator operator _))
      hmore
  | .suffix base operator _ => .of_parens rfl id fun h r hr =>
    .chain_of_primary ((Expr.printed base).primary h _) hr.stops
      (.suffix hr.isField (.chainEnd hr.stops.chain))
  | .conditional condition thenBranch elseBranch _ => .of_parens rfl id fun h r hr => by
    obtain ⟨helse, hbranch⟩ := Expr.printed_writeElse elseBranch h.2.2 .inside r hr
    refine .expr_of_primary hr.stops (.conditionalValue (.conditional ?_ ?_ helse))
    · exact fun r hr => (Expr.printed condition).expr h.1 hr.stops
    · exact (Expr.printed thenBranch).statement h.2.1 true _ _ hbranch
  | .block kind body _ => .of_parens rfl id fun h r hr =>
    .expr_of_primary hr.stops
      (.block (.blockBody (Stmt.printed_writeEach body h (.inr rfl) rfl)) rfl)
  | .declaration text type value _ =>
    { primary := fun h => absurd h.1 nofun
      statement := fun h valueRequired c r hr =>
        .declared (.declaration (Expr.printed_writeDeclaredType type h.2.2.1 c)
          ((Expr.printed value).expr h.2.2.2 hr.stops)) }
  | .update text operator value _ =>
    { primary := fun h => absurd h.1 nofun
      statement := fun h valueRequired c r hr =>
        .updated (.update ((Expr.printed value).expr h.2.2 hr.stops)) }

/-- The tokens of the body of a function are derived. -/
theorem Body.printed : ∀ b : Body Unit, b.WellFormed → ∀ c r, EndsElement r →
    Yields false .functionBody c b.write b r
  | .block statements, h, _, _, _ =>
    .statementBody (.blockBody (Stmt.printed_writeEach statements h (.inr rfl) rfl))
  | .arrow value, h, _, _, hr => .arrowBody ((Expr.printed value).statement h true _ _ (.inl hr))

/-- The tokens of a statement are derived. -/
theorem Stmt.printed : ∀ s : Stmt Unit, s.WellFormed → ∀ c r, kind r = .semicolon →
    Yields false .content c s.write s r
  | .expression value, h, c, r, hr => by
    obtain ⟨t, ts, hts, -, htype, -⟩ := value.starts_write h
    obtain ⟨u, hu, hvalue⟩ := (Expr.printed value).statement h false c r (.inr (.inl hr))
    have hwords : words u = t :: ts := hu.trans hts
    exact ⟨u, hu, .expression (by simp [hwords, definesType, htype]) hvalue⟩
  | .typeDefinition text definition _, h, c, r, hr =>
    .typeDefinition ((Expr.printed definition).expr h.2 (stops_of_isPause (by rw [hr]; rfl)))

/-- The tokens of each expression are derived. -/
theorem Expr.elements : ∀ es : List (Expr Unit), Expr.EachWellFormed es →
    Elements false .expr es (Expr.writeEach es)
  | [], _ => .nil
  | e :: rest, h =>
    .cons (fun _ hr => .element ((Expr.printed e).expr h.1 hr.stops)) (Expr.elements rest h.2)

/-- The tokens of a type after a colon are derived. -/
theorem Expr.printed_writeType : ∀ type : Option (Expr Unit), Expr.OptionWellFormed false type →
    ∀ c r, kind r ≠ .colon → Stops c r →
      Yields false .typeAfterColon c (Expr.writeType type) type r
  | none, _, _, _, hcolon, _ => ⟨[], rfl, .typeAbsent hcolon⟩
  | some type, h, _, _, _, hstops => .typeAfterColon ((Expr.printed type).expr h hstops)

/-- The tokens of the type of a declaration are derived. -/
theorem Expr.printed_writeDeclaredType : ∀ type : Option (Expr Unit),
    Expr.OptionWellFormed false type → ∀ c r, kind r = .assignment →
      Yields false .declaredType c (Expr.writeDeclaredType type) type r
  | none, _, _, _, hr => ⟨[], rfl, .declaredTypeAbsent hr⟩
  | some type, h, _, _, hr =>
    .declaredType ((Expr.printed type).expr h (stops_of_isPause (by rw [hr]; rfl)))

/-- The tokens of the branch for the other case are derived. -/
theorem Expr.printed_writeElse : ∀ branch : Option (Expr Unit),
    Expr.OptionWellFormed true branch → ∀ c r, EndsElement r →
      Yields false (.elseBranch true) c (Expr.writeElse branch) branch r ∧
        EndsBranch (tokens (Expr.writeElse branch) ++ r)
  | none, _, _, _, hr =>
    ⟨⟨[], rfl, .elseAbsent (isKeyword_of_kind hr.kind_ne_identifier) rfl⟩, .inl hr⟩
  | some branch, h, _, _, hr =>
    ⟨.elseBranch ((Expr.printed branch).statement h true _ _ (.inl hr)), .inr (.inr rfl)⟩

/-- The tokens of each entry are derived. -/
theorem Entry.elements : ∀ es : List (Entry Unit), Entry.EachWellFormed es →
    Elements false .entry es (Entry.writeEach es)
  | [], _ => .nil
  | ⟨key, value, _⟩ :: rest, h => by
    refine .cons (fun r hr => .entry (fun r hcolon => ?_) ?_) (Entry.elements rest h.2.2)
    · exact (Expr.printed key).expr h.1 (stops_of_isPause (by rw [hcolon]; rfl))
    · exact (Expr.printed value).expr h.2.1 hr.stops

/-- The tokens of each field are derived. -/
theorem Field.elements : ∀ fs : List (Field Unit), Field.EachWellFormed fs →
    Elements false .field fs (Field.writeEach fs)
  | [], _ => .nil
  | ⟨_, value, _⟩ :: rest, h =>
    .cons (fun _ hr => .field ((Expr.printed value).expr h.2.1 hr.stops))
      (Field.elements rest h.2.2)

/-- The tokens of each parameter are derived. -/
theorem Parameter.elements : ∀ ps : List (Parameter Unit), Parameter.EachWellFormed ps →
    Elements false .parameter ps (Parameter.writeEach ps)
  | [], _ => .nil
  | ⟨_, type, _⟩ :: rest, h =>
    .cons (fun _ hr => .parameter
      (Expr.printed_writeType type h.2.1 _ _ hr.kind_ne_colon hr.stops))
      (Parameter.elements rest h.2.2)

/-- The tokens of statements are derived. -/
theorem Stmt.printed_writeEach : ∀ ss : List (Stmt Unit), Stmt.EachWellFormed ss →
    ∀ {close : TokenKind} {c : Surroundings} {r : List Token},
      (close = .eof ∨ close = .closeCurly) → kind r = close →
      Yields false (.statements close) c (Stmt.writeEach ss) ss r
  | [], _, _, _, _, hclose, hr => ⟨[], rfl, .noStatement hr (by rintro rfl; simp at hclose)⟩
  | s :: rest, h, _, _, _, hclose, hr =>
    .statement hclose (fun r hr => Stmt.printed s h.1 _ r hr)
      (Stmt.printed_writeEach rest h.2 hclose hr)

end

end Derives

/-! ## Parsing a canonical text -/

/-- The canonical text of well-formed statements is parsed to these statements, unless a value
needs a branch for the other case. -/
theorem Stmt.parse_writeEach {body : List (Stmt Unit)} {settings : Settings}
    (hbody : Stmt.EachWellFormed body) (hsettings : settings.elseRequired = false) :
    ∃ m, parse (Piece.source (Stmt.writeEach body)) settings = .ok m ∧ m.bare = body := by
  have hlexemes : Piece.Recognised false (Stmt.writeEach body ++ []) :=
    Stmt.recognised_writeEach body hbody .nil
  obtain ⟨u, hu, hderives⟩ := Stmt.printed_writeEach body hbody (c := .outside) (.inl rfl)
    (show Lookahead.kind [] = .eof from rfl)
  rw [List.append_nil] at hlexemes
  rw [← hsettings] at hderives
  exact Piece.parse_of_derives hlexemes hu hderives

/-- A declaration of a difference is written with one pair of parentheses and parsed again. -/
theorem Stmt.parse_writeEach_declaration :
    let body : List (Stmt Unit) := [.expression (.declaration "x" none
      (.binary (.label "a" ()) .minus (.literal (.string "b\n") ()) ()) ())]
    Piece.source (Stmt.writeEach body) = "x : = (a - \"b\\n\"); " ∧
      Stmt.EachWellFormed body ∧ ({} : Settings).elseRequired = false ∧
      ∃ m, parse (Piece.source (Stmt.writeEach body)) {} = .ok m ∧ m.bare = body := by
  intro body
  have hname : ∀ text ∈ ["x", "a"], IsIdentifier text := by
    intro text htext
    obtain rfl | rfl : text = "x" ∨ text = "a" := by simpa using htext
    all_goals exact ⟨⟨_, [], rfl, rfl, nofun⟩, rfl⟩
  have hbody : Stmt.EachWellFormed body :=
    ⟨⟨rfl, hname "x" (by decide), trivial, hname "a" (by decide), trivial⟩, trivial⟩
  exact ⟨by decide +kernel, hbody, rfl, Stmt.parse_writeEach hbody rfl⟩

end SurfaceGrammar

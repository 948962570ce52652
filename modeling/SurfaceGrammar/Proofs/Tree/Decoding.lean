import SurfaceGrammar.Proofs.Literal.Reading
import SurfaceGrammar.Proofs.Tree.Bare
import SurfaceGrammar.Proofs.Tree.Reader

/-!
# Decoding the rendering of trees

A tree is read back from its rendering: the first atom of a list says which node the list stands
for, and the other atoms are literals and names. Only one thing is lost: a part that is left out
is rendered like the label `_`.

* `Head`: the words that begin the S-expressions of expressions.
* `Reading.ofSexpr?`, `Stmt.ofSexprEach?`: the trees that S-expressions stand for.
* `Stmt.decode?`: the statements that a rendering stands for, a line each.
* `Rewriting.filled`: trees with the label `_` in the place of parts that are left out.
* `Expr.Legible`: the trees whose names and numbers can be read back.
* `Stmt.decode?_render`: the statements that are decoded from the rendering of a tree.
-/

namespace SurfaceGrammar

open Sexpr (atom list)

/-! ## Heads -/

/-- What an S-expression begins with that is no atom. -/
inductive Head where
  | sequence (form : SequenceForm)
  | mapping
  | object
  | function
  | call
  | member
  | binary (operator : BinaryOperator)
  | suffix
  | conditional
  | block (kind : BlockKind)
  | declaration
  | update (operator : Updater)
  | typeDefinition
  /-- The body of a function that is a block of statements. -/
  | body
deriving DecidableEq

namespace Head

/-- The word that an S-expression begins with. -/
def word : Head → String
  | sequence form => form.word
  | mapping => "map"
  | object => "object"
  | function => "fn"
  | call => "call"
  | member => "attr"
  | binary operator => operator.symbol
  | suffix => "suffix"
  | conditional => "if"
  | block kind => kind.word
  | declaration => "decl"
  | update operator => operator.symbol
  | typeDefinition => "type"
  | body => "block"

/-- Every head once. -/
def all : List Head :=
  [.sequence .tuple, .sequence .array, .sequence .set, .mapping, .object, .function, .call,
    .member, .binary .equals, .binary .notEquals, .binary .less, .binary .greater,
    .binary .lessEquals, .binary .greaterEquals, .binary .subtype, .binary .plus, .binary .minus,
    .binary .and, .binary .or, .binary .multiply, .binary .divide, .binary .modulo,
    .binary .power, .suffix, .conditional, .block .do, .block .scope, .declaration,
    .update .assign, .update .add, .update .subtract, .update .multiply, .update .divide,
    .update .modulo, .update .power, .typeDefinition, .body]

/-- The head with a given word. -/
def ofWord? (text : String) : Option Head :=
  all.find? fun head => head.word == text

theorem mem_all (head : Head) : head ∈ all := by
  cases head with
  | sequence form => cases form <;> decide
  | binary operator => cases operator <;> decide
  | block kind => cases kind <;> decide
  | update operator => cases operator <;> decide
  | _ => decide

/-- No two heads have the same word. -/
theorem ofWord?_word (head : Head) : ofWord? head.word = some head := by
  have hall : ∀ head ∈ all, ofWord? head.word = some head := by decide
  exact hall head (mem_all head)

end Head

/-- Every suffix operator once. -/
def SuffixOperator.all : List SuffixOperator := [.dot, .dollar, .hash, .question]

/-- The suffix operator with a given spelling. -/
def SuffixOperator.ofSymbol? (text : String) : Option SuffixOperator :=
  all.find? fun operator => operator.symbol == text

theorem SuffixOperator.ofSymbol?_symbol (operator : SuffixOperator) :
    ofSymbol? operator.symbol = some operator := by
  cases operator <;> decide

/-! ## From S-expressions to trees -/

/-- The literal or label that a lexeme stands for. -/
def Lexeme.toExpr? (l : Lexeme) : Option (Expr Unit) :=
  match l.kind with
  | .number => (Decimal.read? l.value.toList).map fun x => .literal (.number x) ()
  | .string => some (.literal (.string l.value) ())
  | .char => l.value.toList.head?.map fun c => .literal (.char c) ()
  | .identifier =>
    match Keyword.ofSpelling? l.value with
    | some .true => some (.literal (.boolean true) ())
    | some .false => some (.literal (.boolean false) ())
    | _ => some (.label l.value ())
  | _ => none

/-- The literal or label that an atom stands for. -/
def Expr.ofAtom? (text : List Char) : Option (Expr Unit) :=
  match text with
  | [] => none
  | c :: rest => (Lexeme.recognise false c rest).toOption.bind Lexeme.toExpr?

/-- What an S-expression stands for: an expression, a type definition, or the statements of the
body of a function. -/
inductive Reading where
  | expr (value : Expr Unit)
  | typeDefinition (name : String) (definition : Expr Unit)
  | block (statements : List (Stmt Unit))

namespace Reading

/-- The expression that was read. -/
def expr? : Reading → Option (Expr Unit)
  | expr value => some value
  | _ => none

/-- The statement that was read. -/
def stmt? : Reading → Option (Stmt Unit)
  | expr value => some (.expression value)
  | typeDefinition name definition => some (.typeDefinition name definition ())
  | block _ => none

/-- The body of a function that was read. -/
def body? : Reading → Option (Body Unit)
  | expr value => some (.arrow value)
  | block statements => some (.block statements)
  | typeDefinition _ _ => none

end Reading

mutual

/-- What an S-expression stands for. -/
def Reading.ofSexpr? : Sexpr → Option Reading
  | .atom text => (Expr.ofAtom? text.toList).map .expr
  | .list (.atom word :: items) =>
    match Head.ofWord? word with
    | some head => Reading.ofItems? head items
    | none => none
  | _ => none

/-- What an S-expression with a head and other items stands for. -/
def Reading.ofItems? : Head → List Sexpr → Option Reading
  | .sequence form, items => do
    return .expr (.sequence form (← Expr.ofSexprEach? items) ())
  | .mapping, items => do
    return .expr (.mapping (← Entry.ofSexprEach? items) ())
  | .object, items => do
    return .expr (.object (← Field.ofSexprEach? items) ())
  | .function, [.atom name, .list parameters, type, body] => do
    let parameters ← Parameter.ofSexprEach? parameters
    let type ← (← Reading.ofSexpr? type).expr?
    let body ← (← Reading.ofSexpr? body).body?
    return .expr (.function (some name) parameters (some type) body ())
  | .call, callee :: arguments => do
    let callee ← (← Reading.ofSexpr? callee).expr?
    return .expr (.call callee (← Expr.ofSexprEach? arguments) ())
  | .member, [base, .atom field] => do
    let base ← (← Reading.ofSexpr? base).expr?
    return .expr (.member base field ())
  | .binary operator, [left, right] => do
    let left ← (← Reading.ofSexpr? left).expr?
    let right ← (← Reading.ofSexpr? right).expr?
    return .expr (.binary left operator right ())
  | .suffix, [.atom symbol, base] => do
    let operator ← SuffixOperator.ofSymbol? symbol
    let base ← (← Reading.ofSexpr? base).expr?
    return .expr (.suffix base operator ())
  | .conditional, [condition, thenBranch] => do
    let condition ← (← Reading.ofSexpr? condition).expr?
    let thenBranch ← (← Reading.ofSexpr? thenBranch).expr?
    return .expr (.conditional condition thenBranch none ())
  | .conditional, [condition, thenBranch, elseBranch] => do
    let condition ← (← Reading.ofSexpr? condition).expr?
    let thenBranch ← (← Reading.ofSexpr? thenBranch).expr?
    let elseBranch ← (← Reading.ofSexpr? elseBranch).expr?
    return .expr (.conditional condition thenBranch (some elseBranch) ())
  | .block kind, items => do
    return .expr (.block kind (← Stmt.ofSexprEach? items) ())
  | .declaration, [.atom name, type, value] => do
    let type ← (← Reading.ofSexpr? type).expr?
    let value ← (← Reading.ofSexpr? value).expr?
    return .expr (.declaration name (some type) value ())
  | .update operator, [.atom name, value] => do
    let value ← (← Reading.ofSexpr? value).expr?
    return .expr (.update name operator value ())
  | .typeDefinition, [.atom name, definition] => do
    let definition ← (← Reading.ofSexpr? definition).expr?
    return .typeDefinition name definition
  | .body, items => do
    return .block (← Stmt.ofSexprEach? items)
  | _, _ => none

/-- The expressions that S-expressions stand for. -/
def Expr.ofSexprEach? : List Sexpr → Option (List (Expr Unit))
  | [] => some []
  | item :: rest => do
    let first ← (← Reading.ofSexpr? item).expr?
    return first :: (← Expr.ofSexprEach? rest)

/-- The keys with their values that S-expressions stand for. -/
def Entry.ofSexprEach? : List Sexpr → Option (List (Entry Unit))
  | [] => some []
  | .list [key, value] :: rest => do
    let key ← (← Reading.ofSexpr? key).expr?
    let value ← (← Reading.ofSexpr? value).expr?
    return ⟨key, value, ()⟩ :: (← Entry.ofSexprEach? rest)
  | _ => none

/-- The labels with their values that S-expressions stand for. -/
def Field.ofSexprEach? : List Sexpr → Option (List (Field Unit))
  | [] => some []
  | .list [.atom label, value] :: rest => do
    let value ← (← Reading.ofSexpr? value).expr?
    return ⟨label, value, ()⟩ :: (← Field.ofSexprEach? rest)
  | _ => none

/-- The parameters that S-expressions stand for. -/
def Parameter.ofSexprEach? : List Sexpr → Option (List (Parameter Unit))
  | [] => some []
  | .atom label :: rest => do
    return ⟨label, none, ()⟩ :: (← Parameter.ofSexprEach? rest)
  | .list [.atom label, type] :: rest => do
    let type ← (← Reading.ofSexpr? type).expr?
    return ⟨label, some type, ()⟩ :: (← Parameter.ofSexprEach? rest)
  | _ => none

/-- The statements that S-expressions stand for. -/
def Stmt.ofSexprEach? : List Sexpr → Option (List (Stmt Unit))
  | [] => some []
  | item :: rest => do
    let first ← (← Reading.ofSexpr? item).stmt?
    return first :: (← Stmt.ofSexprEach? rest)

end

/-- The statements that a text stands for, a line each. -/
def Stmt.decode? (text : String) : Option (List (Stmt Unit)) :=
  if text = "" then some []
  else ((text.toList.splitOn '\n').mapM Sexpr.read?).bind Stmt.ofSexprEach?

/-! ## Trees with some parts changed -/

/-- How literals, names that may be left out and types that may be left out are changed. -/
structure Rewriting where
  literal : Literal → Literal := id
  name : Option String → Option String := id
  type : Option (Expr Unit) → Option (Expr Unit) := id

/-- The label `_` in the place of names and types that are left out. -/
def Rewriting.filled : Rewriting where
  name name := some (name.getD "_")
  type type := some (type.getD (.label "_" ()))

section Rewrite

variable (f : Rewriting)

mutual

/-- An expression with its parts changed. -/
def Expr.rewrite : Expr Unit → Expr Unit
  | .literal value mark => .literal (f.literal value) mark
  | .label name mark => .label name mark
  | .sequence form elements mark => .sequence form (Expr.rewriteEach elements) mark
  | .mapping entries mark => .mapping (Entry.rewriteEach entries) mark
  | .object fields mark => .object (Field.rewriteEach fields) mark
  | .function name parameters returnType body mark =>
    .function (f.name name) (Parameter.rewriteEach parameters)
      (f.type (Expr.rewriteOption returnType)) (Body.rewrite body) mark
  | .call callee arguments mark => .call (Expr.rewrite callee) (Expr.rewriteEach arguments) mark
  | .member base field mark => .member (Expr.rewrite base) field mark
  | .binary left operator right mark =>
    .binary (Expr.rewrite left) operator (Expr.rewrite right) mark
  | .suffix base operator mark => .suffix (Expr.rewrite base) operator mark
  | .conditional condition thenBranch elseBranch mark =>
    .conditional (Expr.rewrite condition) (Expr.rewrite thenBranch)
      (Expr.rewriteOption elseBranch) mark
  | .block kind body mark => .block kind (Stmt.rewriteEach body) mark
  | .declaration name type value mark =>
    .declaration name (f.type (Expr.rewriteOption type)) (Expr.rewrite value) mark
  | .update name operator value mark => .update name operator (Expr.rewrite value) mark

/-- The body of a function with its parts changed. -/
def Body.rewrite : Body Unit → Body Unit
  | .block statements => .block (Stmt.rewriteEach statements)
  | .arrow value => .arrow (Expr.rewrite value)

/-- A statement with its parts changed. -/
def Stmt.rewrite : Stmt Unit → Stmt Unit
  | .expression value => .expression (Expr.rewrite value)
  | .typeDefinition name definition mark =>
    .typeDefinition name (Expr.rewrite definition) mark

/-- Expressions with their parts changed. -/
def Expr.rewriteEach : List (Expr Unit) → List (Expr Unit)
  | [] => []
  | e :: rest => Expr.rewrite e :: Expr.rewriteEach rest

/-- An optional expression with its parts changed. -/
def Expr.rewriteOption : Option (Expr Unit) → Option (Expr Unit)
  | none => none
  | some e => some (Expr.rewrite e)

/-- Keys with their values with their parts changed. -/
def Entry.rewriteEach : List (Entry Unit) → List (Entry Unit)
  | [] => []
  | ⟨key, value, mark⟩ :: rest =>
    ⟨Expr.rewrite key, Expr.rewrite value, mark⟩ :: Entry.rewriteEach rest

/-- Labels with their values with their parts changed. -/
def Field.rewriteEach : List (Field Unit) → List (Field Unit)
  | [] => []
  | ⟨label, value, mark⟩ :: rest => ⟨label, Expr.rewrite value, mark⟩ :: Field.rewriteEach rest

/-- Parameters with their parts changed. -/
def Parameter.rewriteEach : List (Parameter Unit) → List (Parameter Unit)
  | [] => []
  | ⟨label, type, mark⟩ :: rest =>
    ⟨label, Expr.rewriteOption type, mark⟩ :: Parameter.rewriteEach rest

/-- Statements with their parts changed. -/
def Stmt.rewriteEach : List (Stmt Unit) → List (Stmt Unit)
  | [] => []
  | s :: rest => Stmt.rewrite s :: Stmt.rewriteEach rest

end

end Rewrite

/-! ## Legible trees -/

/-- A name that is read as a label: no word for a truth value. -/
structure IsLabel (text : String) : Prop where
  name : Lexeme.IsName text
  noTruth : ∀ value, Keyword.ofSpelling? text ≠ some (.ofBool value)

mutual

/-- The names and numbers of an expression can be read back. -/
def Expr.Legible : Expr Unit → Prop
  | .literal value _ => value.IsFinite
  | .label name _ => IsLabel name
  | .sequence _ elements _ => Expr.LegibleEach elements
  | .mapping entries _ => Entry.LegibleEach entries
  | .object fields _ => Field.LegibleEach fields
  | .function name parameters returnType body _ =>
    (∀ n ∈ name, Lexeme.IsName n) ∧ Parameter.LegibleEach parameters ∧
      Expr.LegibleOption returnType ∧ body.Legible
  | .call callee arguments _ => callee.Legible ∧ Expr.LegibleEach arguments
  | .member base field _ => base.Legible ∧ Lexeme.IsName field
  | .binary left _ right _ => left.Legible ∧ right.Legible
  | .suffix base _ _ => base.Legible
  | .conditional condition thenBranch elseBranch _ =>
    condition.Legible ∧ thenBranch.Legible ∧ Expr.LegibleOption elseBranch
  | .block _ body _ => Stmt.LegibleEach body
  | .declaration name type value _ =>
    Lexeme.IsName name ∧ Expr.LegibleOption type ∧ value.Legible
  | .update name _ value _ => Lexeme.IsName name ∧ value.Legible

/-- The names and numbers of the body of a function can be read back. -/
def Body.Legible : Body Unit → Prop
  | .block statements => Stmt.LegibleEach statements
  | .arrow value => value.Legible

/-- The names and numbers of a statement can be read back. -/
def Stmt.Legible : Stmt Unit → Prop
  | .expression value => value.Legible
  | .typeDefinition name definition _ => Lexeme.IsName name ∧ definition.Legible

/-- The names and numbers of expressions can be read back. -/
def Expr.LegibleEach : List (Expr Unit) → Prop
  | [] => True
  | e :: rest => e.Legible ∧ Expr.LegibleEach rest

/-- The names and numbers of an optional expression can be read back. -/
def Expr.LegibleOption : Option (Expr Unit) → Prop
  | none => True
  | some e => e.Legible

/-- The names and numbers of keys and values can be read back. -/
def Entry.LegibleEach : List (Entry Unit) → Prop
  | [] => True
  | ⟨key, value, _⟩ :: rest => key.Legible ∧ value.Legible ∧ Entry.LegibleEach rest

/-- The names and numbers of labels and values can be read back. -/
def Field.LegibleEach : List (Field Unit) → Prop
  | [] => True
  | ⟨label, value, _⟩ :: rest => Lexeme.IsName label ∧ value.Legible ∧ Field.LegibleEach rest

/-- The names and numbers of parameters can be read back. -/
def Parameter.LegibleEach : List (Parameter Unit) → Prop
  | [] => True
  | ⟨label, type, _⟩ :: rest =>
    Lexeme.IsName label ∧ Expr.LegibleOption type ∧ Parameter.LegibleEach rest

/-- The names and numbers of statements can be read back. -/
def Stmt.LegibleEach : List (Stmt Unit) → Prop
  | [] => True
  | s :: rest => s.Legible ∧ Stmt.LegibleEach rest

end

/-! ## Atoms -/

section Atoms

open Sexpr (IsAtom IsBare)

theorem Lexeme.continuesName_of_startsName {c : Char} (h : Lexeme.startsName c = true) :
    Lexeme.continuesName c = true := by
  simp only [Lexeme.startsName, Bool.or_eq_true] at h
  obtain h | h := h <;> simp [Lexeme.continuesName, Char.isAlphanum, h]

theorem isBare_of_continuesName {c : Char} (h : Lexeme.continuesName c = true) : IsBare c := by
  have hall : [' ', '(', ')', '"', '\'', '\n'].all (!Lexeme.continuesName ·) = true := by decide
  intro hmem
  have hnot := List.all_eq_true.mp hall c hmem
  rw [h] at hnot
  cases hnot

theorem Lexeme.IsName.isAtom {text : String} (h : Lexeme.IsName text) : IsAtom text.toList := by
  obtain ⟨c, cs, htext, hc, hcs⟩ := h
  rw [htext]
  refine .bare (List.cons_ne_nil c cs) fun d hd => isBare_of_continuesName ?_
  obtain rfl | hd := List.mem_cons.mp hd
  · exact Lexeme.continuesName_of_startsName hc
  · exact hcs d hd

theorem Head.isAtom_word (head : Head) : IsAtom head.word.toList := by
  have hall : ∀ head ∈ all, head.word.toList ≠ [] ∧
      head.word.toList.all (fun c => IsBare c) = true := by
    decide
  obtain ⟨hne, hbare⟩ := hall head (mem_all head)
  exact .bare hne (by simpa using hbare)

theorem SuffixOperator.isAtom_symbol (operator : SuffixOperator) :
    IsAtom operator.symbol.toList := by
  have hbare : operator.symbol.toList.all (fun c => IsBare c) = true := by
    cases operator <;> decide
  exact .bare (by cases operator <;> decide) (by simpa using hbare)

theorem Decimal.Unsigned.isBare {text : List Char} (h : Decimal.Unsigned text) :
    ∀ c ∈ text, IsBare c := by
  have hdigits : ∀ digits : List Char, (∀ c ∈ digits, c.isDigit = true) →
      ∀ c ∈ digits, IsBare c :=
    fun _ hall c hc => isBare_of_continuesName (Lexeme.continuesName_of_isDigit (hall c hc))
  cases h with
  | whole _ hall => exact hdigits _ hall
  | fraction _ hall _ hfraction =>
    intro c hc
    obtain hc | hc := List.mem_append.mp hc
    · exact hdigits _ hall c hc
    · obtain rfl | hc := List.mem_cons.mp hc
      · decide
      · exact hdigits _ hfraction c hc

theorem isAtom_enclose {quote : Char} (hquote : IsQuote quote) (text : List Char) :
    IsAtom (Literal.enclose quote text) := by
  have hbody := Lexeme.body?_enclosed hquote text []
  exact .quoted hquote (Lexeme.body?_eq_some_iff.mp hbody).1

/-- The text of a literal is one atom. -/
theorem Literal.isAtom_source {value : Literal} (h : value.IsFinite) :
    IsAtom value.source.toList := by
  match value with
  | .number x =>
    have hunsigned := Decimal.unsigned_writeMagnitude (Binary64.magnitude_lt h)
    have hbare := hunsigned.isBare
    obtain ⟨c, rest, htext, -⟩ := hunsigned.head?
    rw [Literal.source, String.toList_ofList, Decimal.write_of_isFinite h]
    cases x.isNegative with
    | false => exact .bare (by simp [htext]) (by simpa using hbare)
    | true =>
      refine .bare (by simp) fun c hc => ?_
      obtain rfl | hc := List.mem_cons.mp hc
      · decide
      · exact hbare c hc
  | .string text =>
    rw [Literal.source, String.toList_ofList]
    exact isAtom_enclose (.inl rfl) _
  | .char c =>
    rw [Literal.source, String.toList_ofList]
    exact isAtom_enclose (.inr rfl) _
  | .boolean true => exact (Lexeme.isName_spelling .true).isAtom
  | .boolean false => exact (Lexeme.isName_spelling .false).isAtom

/-- The atom of a lexeme that stands alone. -/
theorem Expr.ofAtom?_of_stands {l : Lexeme} (h : l.Stands false []) :
    Expr.ofAtom? l.text = l.toExpr? := by
  obtain ⟨c, rest, htext, -, hl⟩ := h
  rw [List.append_nil] at htext
  rw [htext, Expr.ofAtom?, hl]
  rfl

/-- A literal is read back from its text. -/
theorem Expr.ofAtom?_source {value : Literal} (h : value.IsFinite) :
    Expr.ofAtom? value.source.toList = some (.literal value ()) := by
  rw [← Lexeme.text_literal, Expr.ofAtom?_of_stands (Lexeme.stands_literal h rfl)]
  match value with
  | .number x => simp [Lexeme.literal, Lexeme.toExpr?, Decimal.read?_write h]
  | .string text => rfl
  | .char c => simp [Lexeme.literal, Lexeme.toExpr?]
  | .boolean true => rfl
  | .boolean false => rfl

/-- A label is read back from its text. -/
theorem Expr.ofAtom?_label {text : String} (h : IsLabel text) :
    Expr.ofAtom? text.toList = some (.label text ()) := by
  have hstands := Expr.ofAtom?_of_stands (Lexeme.stands_name false h.name rfl)
  have htext : (Lexeme.name text).text = text.toList := rfl
  rw [htext] at hstands
  rw [hstands]
  simp only [Lexeme.toExpr?, Lexeme.name]
  split
  · next hword => exact absurd hword (h.noTruth true)
  · next hword => exact absurd hword (h.noTruth false)
  · rfl

theorem isLabel_placeholder : IsLabel "_" :=
  ⟨⟨'_', [], rfl, rfl, nofun⟩, by decide⟩

end Atoms

/-! ## The S-expressions of legible trees -/

theorem Sexpr.legible_absent : Sexpr.absent.Legible := isLabel_placeholder.name.isAtom

mutual

/-- The atoms of the S-expression of a legible tree can be told apart. -/
theorem Expr.legible_sexpr : ∀ e : Expr Unit, e.Legible → e.sexpr.Legible
  | .literal _ _ => fun h => Literal.isAtom_source h
  | .label _ _ => fun h => h.name.isAtom
  | .sequence form es _ => fun h =>
    ⟨(Head.sequence form).isAtom_word, Expr.legible_sexprEach es h⟩
  | .mapping es _ => fun h => ⟨Head.mapping.isAtom_word, Entry.legible_sexprEach es h⟩
  | .object fs _ => fun h => ⟨Head.object.isAtom_word, Field.legible_sexprEach fs h⟩
  | .function none ps type body _ => fun ⟨_, hps, htype, hbody⟩ =>
    ⟨Head.function.isAtom_word, Sexpr.legible_absent, Parameter.legible_sexprEach ps hps,
      Expr.legible_sexprOption type htype, Body.legible_sexpr body hbody, trivial⟩
  | .function (some n) ps type body _ => fun ⟨hname, hps, htype, hbody⟩ =>
    ⟨Head.function.isAtom_word, (hname n rfl).isAtom, Parameter.legible_sexprEach ps hps,
      Expr.legible_sexprOption type htype, Body.legible_sexpr body hbody, trivial⟩
  | .call callee es _ => fun h =>
    ⟨Head.call.isAtom_word, Expr.legible_sexpr callee h.1, Expr.legible_sexprEach es h.2⟩
  | .member base _ _ => fun h =>
    ⟨Head.member.isAtom_word, Expr.legible_sexpr base h.1, h.2.isAtom, trivial⟩
  | .binary left operator right _ => fun h =>
    ⟨(Head.binary operator).isAtom_word, Expr.legible_sexpr left h.1, Expr.legible_sexpr right h.2,
      trivial⟩
  | .suffix base operator _ => fun h =>
    ⟨Head.suffix.isAtom_word, operator.isAtom_symbol, Expr.legible_sexpr base h, trivial⟩
  | .conditional condition thenBranch none _ => fun h =>
    ⟨Head.conditional.isAtom_word, Expr.legible_sexpr condition h.1,
      Expr.legible_sexpr thenBranch h.2.1, trivial⟩
  | .conditional condition thenBranch (some elseBranch) _ => fun h =>
    ⟨Head.conditional.isAtom_word, Expr.legible_sexpr condition h.1,
      Expr.legible_sexpr thenBranch h.2.1, Expr.legible_sexpr elseBranch h.2.2, trivial⟩
  | .block kind body _ => fun h => ⟨(Head.block kind).isAtom_word, Stmt.legible_sexprEach body h⟩
  | .declaration _ type value _ => fun h =>
    ⟨Head.declaration.isAtom_word, h.1.isAtom, Expr.legible_sexprOption type h.2.1,
      Expr.legible_sexpr value h.2.2, trivial⟩
  | .update _ operator value _ => fun h =>
    ⟨(Head.update operator).isAtom_word, h.1.isAtom, Expr.legible_sexpr value h.2, trivial⟩

theorem Body.legible_sexpr : ∀ b : Body Unit, b.Legible → b.sexpr.Legible
  | .block body => fun h => ⟨Head.body.isAtom_word, Stmt.legible_sexprEach body h⟩
  | .arrow value => fun h => Expr.legible_sexpr value h

theorem Stmt.legible_sexpr : ∀ s : Stmt Unit, s.Legible → s.sexpr.Legible
  | .expression value => fun h => Expr.legible_sexpr value h
  | .typeDefinition _ definition _ => fun h =>
    ⟨Head.typeDefinition.isAtom_word, h.1.isAtom, Expr.legible_sexpr definition h.2, trivial⟩

theorem Expr.legible_sexprEach : ∀ es : List (Expr Unit), Expr.LegibleEach es →
    Sexpr.LegibleEach (Expr.sexprEach es)
  | [] => fun _ => trivial
  | e :: es => fun h => ⟨Expr.legible_sexpr e h.1, Expr.legible_sexprEach es h.2⟩

theorem Expr.legible_sexprOption : ∀ o : Option (Expr Unit), Expr.LegibleOption o →
    (Expr.sexprOption o).Legible
  | none => fun _ => Sexpr.legible_absent
  | some e => fun h => Expr.legible_sexpr e h

theorem Entry.legible_sexprEach : ∀ es : List (Entry Unit), Entry.LegibleEach es →
    Sexpr.LegibleEach (Entry.sexprEach es)
  | [] => fun _ => trivial
  | ⟨key, value, _⟩ :: es => fun h =>
    ⟨⟨Expr.legible_sexpr key h.1, Expr.legible_sexpr value h.2.1, trivial⟩,
      Entry.legible_sexprEach es h.2.2⟩

theorem Field.legible_sexprEach : ∀ fs : List (Field Unit), Field.LegibleEach fs →
    Sexpr.LegibleEach (Field.sexprEach fs)
  | [] => fun _ => trivial
  | ⟨_, value, _⟩ :: fs => fun h =>
    ⟨⟨h.1.isAtom, Expr.legible_sexpr value h.2.1, trivial⟩, Field.legible_sexprEach fs h.2.2⟩

theorem Parameter.legible_sexprEach : ∀ ps : List (Parameter Unit), Parameter.LegibleEach ps →
    Sexpr.LegibleEach (Parameter.sexprEach ps)
  | [] => fun _ => trivial
  | ⟨_, none, _⟩ :: ps => fun h => ⟨h.1.isAtom, Parameter.legible_sexprEach ps h.2.2⟩
  | ⟨_, some type, _⟩ :: ps => fun h =>
    ⟨⟨h.1.isAtom, Expr.legible_sexpr type h.2.1, trivial⟩, Parameter.legible_sexprEach ps h.2.2⟩

theorem Stmt.legible_sexprEach : ∀ ss : List (Stmt Unit), Stmt.LegibleEach ss →
    Sexpr.LegibleEach (Stmt.sexprEach ss)
  | [] => fun _ => trivial
  | s :: ss => fun h => ⟨Stmt.legible_sexpr s h.1, Stmt.legible_sexprEach ss h.2⟩

end

/-! ## Reading trees back -/

theorem Reading.ofSexpr?_list (head : Head) (items : List Sexpr) :
    Reading.ofSexpr? (list (atom head.word :: items)) = Reading.ofItems? head items := by
  rw [Reading.ofSexpr?, head.ofWord?_word]

mutual

/-- A legible expression is read back from its S-expression, with its placeholders. -/
theorem Reading.ofSexpr?_expr : ∀ e : Expr Unit, e.Legible →
    Reading.ofSexpr? e.sexpr = some (.expr (e.rewrite .filled))
  | .literal value _ => fun h => by
    simp only [Expr.sexpr, Reading.ofSexpr?, Expr.ofAtom?_source h]
    rfl
  | .label name _ => fun h => by
    simp only [Expr.sexpr, Reading.ofSexpr?, Expr.ofAtom?_label h]
    rfl
  | .sequence form es _ => fun h => by
    refine (Reading.ofSexpr?_list (.sequence form) _).trans ?_
    simp only [Reading.ofItems?, Expr.ofSexprEach?_sexprEach es h]
    rfl
  | .mapping es _ => fun h => by
    refine (Reading.ofSexpr?_list .mapping _).trans ?_
    simp only [Reading.ofItems?, Entry.ofSexprEach?_sexprEach es h]
    rfl
  | .object fs _ => fun h => by
    refine (Reading.ofSexpr?_list .object _).trans ?_
    simp only [Reading.ofItems?, Field.ofSexprEach?_sexprEach fs h]
    rfl
  | .function name ps type body _ => fun ⟨_, hps, htype, hbody⟩ => by
    have hname : (name.map atom).getD Sexpr.absent = atom (name.getD "_") := by
      cases name <;> rfl
    obtain ⟨reading, hreading, hread⟩ := Reading.ofSexpr?_body body hbody
    refine (Reading.ofSexpr?_list .function _).trans ?_
    simp only [hname, Reading.ofItems?, Parameter.ofSexprEach?_sexprEach ps hps,
      Reading.ofSexpr?_option type htype, hreading]
    simp [Reading.expr?, hread, Expr.rewrite, Rewriting.filled]
  | .call callee es _ => fun h => by
    refine (Reading.ofSexpr?_list .call _).trans ?_
    simp only [Reading.ofItems?, Reading.ofSexpr?_expr callee h.1,
      Expr.ofSexprEach?_sexprEach es h.2]
    rfl
  | .member base _ _ => fun h => by
    refine (Reading.ofSexpr?_list .member _).trans ?_
    simp only [Reading.ofItems?, Reading.ofSexpr?_expr base h.1]
    rfl
  | .binary left operator right _ => fun h => by
    refine (Reading.ofSexpr?_list (.binary operator) _).trans ?_
    simp only [Reading.ofItems?, Reading.ofSexpr?_expr left h.1,
      Reading.ofSexpr?_expr right h.2]
    rfl
  | .suffix base operator _ => fun h => by
    refine (Reading.ofSexpr?_list .suffix _).trans ?_
    simp only [Reading.ofItems?, Reading.ofSexpr?_expr base h,
      operator.ofSymbol?_symbol]
    rfl
  | .conditional condition thenBranch none _ => fun h => by
    refine (Reading.ofSexpr?_list .conditional _).trans ?_
    simp only [Reading.ofItems?, Reading.ofSexpr?_expr condition h.1,
      Reading.ofSexpr?_expr thenBranch h.2.1]
    rfl
  | .conditional condition thenBranch (some elseBranch) _ => fun h => by
    refine (Reading.ofSexpr?_list .conditional _).trans ?_
    simp only [Reading.ofItems?, Reading.ofSexpr?_expr condition h.1,
      Reading.ofSexpr?_expr thenBranch h.2.1, Reading.ofSexpr?_expr elseBranch h.2.2]
    rfl
  | .block kind body _ => fun h => by
    refine (Reading.ofSexpr?_list (.block kind) _).trans ?_
    simp only [Reading.ofItems?, Stmt.ofSexprEach?_sexprEach body h]
    rfl
  | .declaration _ type value _ => fun h => by
    refine (Reading.ofSexpr?_list .declaration _).trans ?_
    simp only [Reading.ofItems?, Reading.ofSexpr?_option type h.2.1,
      Reading.ofSexpr?_expr value h.2.2]
    rfl
  | .update _ operator value _ => fun h => by
    refine (Reading.ofSexpr?_list (.update operator) _).trans ?_
    simp only [Reading.ofItems?, Reading.ofSexpr?_expr value h.2]
    rfl

theorem Reading.ofSexpr?_body : ∀ b : Body Unit, b.Legible →
    ∃ reading, Reading.ofSexpr? b.sexpr = some reading ∧
      reading.body? = some (b.rewrite .filled)
  | .block body => fun h => by
    refine ⟨.block (Stmt.rewriteEach .filled body), ?_, rfl⟩
    refine (Reading.ofSexpr?_list .body _).trans ?_
    simp only [Reading.ofItems?, Stmt.ofSexprEach?_sexprEach body h]
    rfl
  | .arrow value => fun h => ⟨_, Reading.ofSexpr?_expr value h, rfl⟩

theorem Reading.ofSexpr?_stmt : ∀ s : Stmt Unit, s.Legible →
    ∃ reading, Reading.ofSexpr? s.sexpr = some reading ∧
      reading.stmt? = some (s.rewrite .filled)
  | .expression value => fun h => ⟨_, Reading.ofSexpr?_expr value h, rfl⟩
  | .typeDefinition name definition _ => fun h => by
    refine ⟨.typeDefinition name (definition.rewrite .filled), ?_, rfl⟩
    refine (Reading.ofSexpr?_list .typeDefinition _).trans ?_
    simp only [Reading.ofItems?, Reading.ofSexpr?_expr definition h.2]
    rfl

theorem Reading.ofSexpr?_option : ∀ o : Option (Expr Unit), Expr.LegibleOption o →
    Reading.ofSexpr? (Expr.sexprOption o) =
      some (.expr ((Expr.rewriteOption .filled o).getD (.label "_" ())))
  | none => fun _ => by
    simp only [Expr.sexprOption, Sexpr.absent, Reading.ofSexpr?,
      Expr.ofAtom?_label isLabel_placeholder]
    rfl
  | some e => fun h => by
    simp only [Expr.sexprOption, Reading.ofSexpr?_expr e h]
    rfl

theorem Expr.ofSexprEach?_sexprEach : ∀ es : List (Expr Unit), Expr.LegibleEach es →
    Expr.ofSexprEach? (Expr.sexprEach es) = some (Expr.rewriteEach .filled es)
  | [] => fun _ => by rw [Expr.sexprEach, Expr.ofSexprEach?, Expr.rewriteEach]
  | e :: es => fun h => by
    simp only [Expr.sexprEach, Expr.ofSexprEach?, Reading.ofSexpr?_expr e h.1,
      Expr.ofSexprEach?_sexprEach es h.2]
    rfl

theorem Entry.ofSexprEach?_sexprEach : ∀ es : List (Entry Unit), Entry.LegibleEach es →
    Entry.ofSexprEach? (Entry.sexprEach es) = some (Entry.rewriteEach .filled es)
  | [] => fun _ => by rw [Entry.sexprEach, Entry.ofSexprEach?, Entry.rewriteEach]
  | ⟨key, value, _⟩ :: es => fun h => by
    simp only [Entry.sexprEach, Entry.ofSexprEach?, Reading.ofSexpr?_expr key h.1,
      Reading.ofSexpr?_expr value h.2.1, Entry.ofSexprEach?_sexprEach es h.2.2]
    rfl

theorem Field.ofSexprEach?_sexprEach : ∀ fs : List (Field Unit), Field.LegibleEach fs →
    Field.ofSexprEach? (Field.sexprEach fs) = some (Field.rewriteEach .filled fs)
  | [] => fun _ => by rw [Field.sexprEach, Field.ofSexprEach?, Field.rewriteEach]
  | ⟨_, value, _⟩ :: fs => fun h => by
    simp only [Field.sexprEach, Field.ofSexprEach?, Reading.ofSexpr?_expr value h.2.1,
      Field.ofSexprEach?_sexprEach fs h.2.2]
    rfl

theorem Parameter.ofSexprEach?_sexprEach : ∀ ps : List (Parameter Unit),
    Parameter.LegibleEach ps →
      Parameter.ofSexprEach? (Parameter.sexprEach ps) = some (Parameter.rewriteEach .filled ps)
  | [] => fun _ => by rw [Parameter.sexprEach, Parameter.ofSexprEach?, Parameter.rewriteEach]
  | ⟨_, none, _⟩ :: ps => fun h => by
    simp only [Parameter.sexprEach, Parameter.ofSexprEach?,
      Parameter.ofSexprEach?_sexprEach ps h.2.2]
    rfl
  | ⟨_, some type, _⟩ :: ps => fun h => by
    simp only [Parameter.sexprEach, Parameter.ofSexprEach?, Reading.ofSexpr?_expr type h.2.1,
      Parameter.ofSexprEach?_sexprEach ps h.2.2]
    rfl

theorem Stmt.ofSexprEach?_sexprEach : ∀ ss : List (Stmt Unit), Stmt.LegibleEach ss →
    Stmt.ofSexprEach? (Stmt.sexprEach ss) = some (Stmt.rewriteEach .filled ss)
  | [] => fun _ => by rw [Stmt.sexprEach, Stmt.ofSexprEach?, Stmt.rewriteEach]
  | s :: ss => fun h => by
    obtain ⟨reading, hreading, hread⟩ := Reading.ofSexpr?_stmt s h.1
    simp only [Stmt.sexprEach, Stmt.ofSexprEach?, hreading, Stmt.ofSexprEach?_sexprEach ss h.2]
    simp [hread, Stmt.rewriteEach]

end

/-! ## Whole renderings -/

theorem Stmt.sexprEach_eq {α : Type} (ss : List (Stmt α)) :
    Stmt.sexprEach ss = ss.map Stmt.sexpr := by
  induction ss with
  | nil => rfl
  | cons s ss ih => rw [Stmt.sexprEach, ih, List.map_cons]

theorem Stmt.rewriteEach_eq (f : Rewriting) (ss : List (Stmt Unit)) :
    Stmt.rewriteEach f ss = ss.map (Stmt.rewrite f) := by
  induction ss with
  | nil => rfl
  | cons s ss ih => rw [Stmt.rewriteEach, ih, List.map_cons]

theorem Sexpr.mapM_read? {items : List Sexpr} (h : Sexpr.LegibleEach items) :
    (items.map fun s => s.render.toList).mapM Sexpr.read? = some items := by
  induction items with
  | nil => rfl
  | cons s items ih =>
    rw [List.map_cons, List.mapM_cons, Sexpr.read?_render h.1, ih h.2]
    rfl

theorem Stmt.LegibleEach.of_mem {ss : List (Stmt Unit)} (h : Stmt.LegibleEach ss) {s : Stmt Unit}
    (hs : s ∈ ss) : s.Legible := by
  induction ss with
  | nil => cases hs
  | cons first ss ih =>
    obtain rfl | hs := List.mem_cons.mp hs
    · exact h.1
    · exact ih h.2 hs

/-- The rendering of a statement is one line. -/
theorem Stmt.not_mem_render {s : Stmt Unit} (h : s.Legible) : '\n' ∉ s.render.toList :=
  Sexpr.not_mem_render s.sexpr (Stmt.legible_sexpr s h)

/-- The lines of a rendering are the statements, one each. -/
theorem Stmt.splitOn_render {ss : List (Stmt Unit)} (h : Stmt.LegibleEach ss) (hne : ss ≠ []) :
    (String.intercalate "\n" (ss.map Stmt.render)).toList.splitOn '\n' =
      ss.map fun s => s.render.toList := by
  have hlines : ∀ line ∈ ss.map fun s => s.render.toList, '\n' ∉ line := by
    intro line hline
    obtain ⟨s, hs, rfl⟩ := List.mem_map.mp hline
    exact Stmt.not_mem_render (h.of_mem hs)
  rw [String.toList_intercalate, List.map_map]
  exact List.splitOn_intercalate '\n' hlines (by simpa using hne)

/-- The statements that are decoded from the rendering of a tree are those of the tree, with
placeholders for the parts that are left out. -/
theorem Stmt.decode?_render {ss : List (Stmt Unit)} (h : Stmt.LegibleEach ss) :
    Stmt.decode? (String.intercalate "\n" (ss.map Stmt.render)) =
      some (ss.map (Stmt.rewrite .filled)) := by
  cases hss : ss with
  | nil => rfl
  | cons s rest =>
    have hlines := Stmt.splitOn_render h (by rw [hss]; exact List.cons_ne_nil s rest)
    have hfirst : s.render.toList ≠ [] :=
      Sexpr.render_ne_nil (Stmt.legible_sexpr s (h.of_mem (by rw [hss]; exact List.mem_cons_self)))
    have hread : (ss.map fun s => s.render.toList).mapM Sexpr.read? = some (Stmt.sexprEach ss) := by
      have hitems := Sexpr.mapM_read? (Stmt.legible_sexprEach ss h)
      rwa [Stmt.sexprEach_eq, List.map_map, ← Stmt.sexprEach_eq] at hitems
    rw [← hss, Stmt.decode?, hlines, if_neg, hread, Option.bind_some,
      Stmt.ofSexprEach?_sexprEach ss h, Stmt.rewriteEach_eq]
    intro hempty
    rw [hempty, hss] at hlines
    have hnil : [[]] = s.render.toList :: rest.map fun s => s.render.toList := hlines
    exact hfirst (List.cons.inj hnil).1.symm

end SurfaceGrammar

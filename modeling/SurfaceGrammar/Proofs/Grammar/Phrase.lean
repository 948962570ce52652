import SurfaceGrammar.Parse.Grammar

/-!
# The grammar behind the productions

A production takes a stretch of tokens, a *phrase*, and looks at the token after it. This file
says without states and bounds which tokens make up a phrase of each kind and which tree they
stand for. The trees are bare, that is, they carry no marks.

* `Surroundings`: what a production knows besides the tokens.
* `Lookahead`: the questions that a production asks about the tokens after a phrase.
* `Leaf`: a token of a phrase, with the kind of delimiter that encloses the gap before it.
* `Phrase`, `Phrase.Tree`: the kinds of phrases and what they stand for.
* `Derives`: which leaves make up a phrase, with the tree and the tokens that follow.
-/

namespace SurfaceGrammar

/-! ## Surroundings -/

/-- What a production knows besides the tokens. -/
structure Surroundings where
  /-- Whether the innermost open delimiter is one inside which line breaks mean nothing. -/
  grouped : Bool
  /-- Whether a return type is being read, which no curly bracket goes on. -/
  returnType : Bool
deriving DecidableEq

namespace Surroundings

/-- Outside of all delimiters. -/
def outside : Surroundings := ⟨false, false⟩

/-- Between delimiters inside which line breaks mean nothing. -/
def inside : Surroundings := ⟨true, false⟩

/-- Between the curly brackets of a block. -/
def block (c : Surroundings) : Surroundings := { c with grouped := false }

/-- In the return type of a function, or after it. -/
def typing (c : Surroundings) (value : Bool) : Surroundings := { c with returnType := value }

end Surroundings

/-! ## Looking ahead -/

namespace Lookahead

/-- The kind of the next token. -/
def kind : List Token → TokenKind
  | [] => .eof
  | t :: _ => t.kind

/-- Whether the next token spells a keyword. -/
def isKeyword (keyword : Keyword) : List Token → Bool
  | [] => false
  | t :: _ => t.isKeyword keyword

/-- Whether a point before the next token makes a member of it. -/
def isField : List Token → Bool
  | [] => false
  | t :: _ => Parse.isField t

/-- Whether a line break stands before the next token. -/
def isOnNewLine : List Token → Bool
  | [] => false
  | t :: _ => t.newlineBefore

@[simp] theorem kind_nil : kind [] = .eof := rfl

@[simp] theorem kind_cons (t : Token) (ts : List Token) : kind (t :: ts) = t.kind := rfl

@[simp] theorem isKeyword_cons (keyword : Keyword) (t : Token) (ts : List Token) :
    isKeyword keyword (t :: ts) = t.isKeyword keyword := rfl

@[simp] theorem isField_cons (t : Token) (ts : List Token) :
    isField (t :: ts) = Parse.isField t := rfl

@[simp] theorem isOnNewLine_cons (t : Token) (ts : List Token) :
    isOnNewLine (t :: ts) = t.newlineBefore := rfl

/-- Whether a line break before the next token ends an expression. -/
def breaks (c : Surroundings) (ts : List Token) : Bool :=
  !c.grouped && isOnNewLine ts

/-- Whether calls, members and suffixes end here. -/
def endsChain (c : Surroundings) (ts : List Token) : Bool :=
  breaks c ts ||
    match kind ts with
    | .openParen | .dot | .dollar | .hash | .question => false
    | _ => true

/-- Whether the operators that bind more tightly than a power end here. -/
def endsOperators (c : Surroundings) (power : Power) (ts : List Token) : Bool :=
  breaks c ts ||
    match BinaryOperator.ofKind? (kind ts) with
    | none => true
    | some operator => operator.level ≤ power

/-- Whether a declaration or an update begins: a label and a colon or an updater. -/
def bindsLabel : List Token → Bool
  | [] => false
  | t :: rest => t.kind = .identifier && (kind rest = .colon || (kind rest).isUpdater)

/-- Whether a type definition begins: the word `type` and a name on the same line. -/
def definesType : List Token → Bool
  | [] => false
  | t :: rest => t.isKeyword .type && (kind rest = .identifier && !isOnNewLine rest)

/-- Whether a word is a plain label. The words that open a block, a set or a map are plain
labels in a return type, and elsewhere if no curly bracket follows. -/
def plainLabel (c : Surroundings) (t : Token) (rest : List Token) : Bool :=
  t.kind = .identifier &&
    match t.keyword? with
    | none | some .type => true
    | some .do | some .scope | some .set | some .map =>
      c.returnType || kind rest ≠ .openCurly
    | _ => false

/-- Whether a statement ends here without a semicolon. -/
def endsStatement (close : TokenKind) (ts : List Token) : Bool :=
  kind ts ≠ .semicolon && (kind ts = close || kind ts = .eof || isOnNewLine ts)

theorem definesType_cons_iff {t : Token} {ts : List Token} : definesType (t :: ts) = true ↔
    t.isKeyword .type = true ∧ kind ts = .identifier ∧ isOnNewLine ts = false := by
  simp [definesType]

theorem endsStatement_cons_iff {close : TokenKind} {t : Token} {ts : List Token} :
    endsStatement close (t :: ts) = true ↔
      t.kind ≠ .semicolon ∧ (t.kind = close ∨ t.kind = .eof ∨ t.newlineBefore = true) := by
  change (decide (t.kind ≠ .semicolon) && (decide (t.kind = close) || decide (t.kind = .eof) ||
    t.newlineBefore)) = true ↔ _
  simp [or_assoc]

end Lookahead

/-! ## Phrases -/

/-- A token of a phrase. -/
structure Leaf where
  token : Token
  /-- Whether the innermost delimiter that is open before the token is one inside which line
  breaks mean nothing. -/
  grouped : Bool
deriving DecidableEq

/-- The tokens of a phrase. -/
def words (w : List Leaf) : List Token := w.map Leaf.token

@[simp] theorem words_nil : words [] = [] := rfl

@[simp] theorem words_cons (l : Leaf) (w : List Leaf) : words (l :: w) = l.token :: words w := rfl

@[simp] theorem words_append (v w : List Leaf) : words (v ++ w) = words v ++ words w :=
  List.map_append

@[simp] theorem length_words (w : List Leaf) : (words w).length = w.length :=
  List.length_map ..

/-- A token in its surroundings. -/
def Surroundings.leaf (c : Surroundings) (t : Token) : Leaf := ⟨t, c.grouped⟩

@[simp] theorem Surroundings.token_leaf (c : Surroundings) (t : Token) : (c.leaf t).token = t :=
  rfl

@[simp] theorem Surroundings.grouped_leaf (c : Surroundings) (t : Token) :
    (c.leaf t).grouped = c.grouped :=
  rfl

/-- What stands between the commas of a delimited list. -/
inductive Slot where
  | expr
  | entry
  | field
  | parameter

/-- What is read into a slot. -/
@[reducible]
def Slot.Tree (α : Type) : Slot → Type
  | .expr => Expr α
  | .entry => Entry α
  | .field => Field α
  | .parameter => Parameter α

/-- The kinds of phrases, one for each production. -/
inductive Phrase where
  /-- An expression up to its first call, member, suffix or operator. -/
  | primary
  | conditional (valueRequired : Bool)
  /-- The word `then`, or nothing. -/
  | thenWord
  | elseBranch (valueRequired : Bool)
  | declaration
  /-- The type of a declaration, or nothing. -/
  | declaredType
  | update
  | functionBody
  /-- A colon and a type, or nothing. -/
  | typeAfterColon
  /-- The calls, members and suffixes after an expression. -/
  | chain (base : Expr Unit)
  /-- The binary operators after an expression that bind more tightly than a power. -/
  | operators (power : Power) (left : Expr Unit)
  | expr (power : Power)
  | statementExpr (valueRequired : Bool)
  | element (slot : Slot)
  /-- Elements up to a closing delimiter, perhaps after a comma. -/
  | elements (slot : Slot) (close : TokenKind) (afterComma : Bool)
  /-- Elements with their closing delimiter. -/
  | delimited (slot : Slot) (close : TokenKind)
  /-- A statement without its end. -/
  | content
  | terminator (close : TokenKind)
  | statements (close : TokenKind)
  | blockBody

/-- What a phrase stands for. Elements come with whether a comma stands after the last. -/
@[reducible]
def Phrase.Tree (α : Type) : Phrase → Type
  | .primary | .conditional _ | .declaration | .update | .chain _ | .operators _ _ | .expr _
  | .statementExpr _ => Expr α
  | .elseBranch _ | .declaredType | .typeAfterColon => Option (Expr α)
  | .functionBody => Body α
  | .element slot => slot.Tree α
  | .elements slot _ _ | .delimited slot _ => List (slot.Tree α) × Bool
  | .content => Stmt α
  | .statements _ | .blockBody => List (Stmt α)
  | .thenWord | .terminator _ => Unit

/-- The word for a truth value. -/
def Keyword.ofBool : Bool → Keyword
  | .true => .true
  | .false => .false

/-- The word that opens a block. -/
def BlockKind.keyword : BlockKind → Keyword
  | .do => .do
  | .scope => .scope

/-! ## Derivations -/

open Lookahead in
/-- How the leaves `w` make up a phrase in the surroundings `c`, with the tree for which the
phrase stands and the tokens `r` that follow. Where a value needs a branch for the other case,
`elseRequired` says whether a conditional without one is refused. -/
inductive Derives (elseRequired : Bool) :
    (p : Phrase) → Surroundings → List Leaf → p.Tree Unit → List Token → Prop
  /- Literals and labels -/
  | number {c t x r} (kind : t.kind = .number)
      (value : (Decimal.read? t.value.toList).filter Binary64.isFinite = some x) :
      Derives elseRequired .primary c [c.leaf t] (.literal (.number x) ()) r
  | string {c t r} (kind : t.kind = .string) :
      Derives elseRequired .primary c [c.leaf t] (.literal (.string t.value) ()) r
  | char {c t x r} (kind : t.kind = .char) (value : t.value.toList = [x]) :
      Derives elseRequired .primary c [c.leaf t] (.literal (.char x) ()) r
  | boolean {c t r} (value : Bool) (word : t.keyword? = some (.ofBool value)) :
      Derives elseRequired .primary c [c.leaf t] (.literal (.boolean value) ()) r
  | label {c t r} (plain : plainLabel c t r = true) :
      Derives elseRequired .primary c [c.leaf t] (.label t.value ()) r
  /- Delimited expressions -/
  | grouping {c o w e r} (opening : o.kind = .openParen)
      (inner : Derives elseRequired (.delimited .expr .closeParen) c w ([e], false) r) :
      Derives elseRequired .primary c (c.leaf o :: w) e r
  | tuple {c o w es comma r} (opening : o.kind = .openParen)
      (inner : Derives elseRequired (.delimited .expr .closeParen) c w (es, comma) r)
      (single : es.length = 1 → comma = true) :
      Derives elseRequired .primary c (c.leaf o :: w) (.sequence .tuple es ()) r
  | array {c o w es comma r} (opening : o.kind = .openBracket)
      (inner : Derives elseRequired (.delimited .expr .closeBracket) c w (es, comma) r) :
      Derives elseRequired .primary c (c.leaf o :: w) (.sequence .array es ()) r
  | set {c k o w es comma r} (word : k.keyword? = some .set) (plain : c.returnType = false)
      (opening : o.kind = .openCurly)
      (inner : Derives elseRequired (.delimited .expr .closeCurly) c w (es, comma) r) :
      Derives elseRequired .primary c (c.leaf k :: c.leaf o :: w) (.sequence .set es ()) r
  | mapping {c k o w es comma r} (word : k.keyword? = some .map) (plain : c.returnType = false)
      (opening : o.kind = .openCurly)
      (inner : Derives elseRequired (.delimited .entry .closeCurly) c w (es, comma) r) :
      Derives elseRequired .primary c (c.leaf k :: c.leaf o :: w) (.mapping es ()) r
  | object {c o w fs comma r} (opening : o.kind = .openCurly)
      (inner : Derives elseRequired (.delimited .field .closeCurly) c w (fs, comma) r) :
      Derives elseRequired .primary c (c.leaf o :: w) (.object fs ()) r
  /- Functions and blocks -/
  | function {c k o} {name : Option Token} {wp wt wb ps comma type body r}
      (word : k.keyword? = some .fn)
      (named : ∀ n ∈ name, n.kind = .identifier) (opening : o.kind = .openParen)
      (parameters : Derives elseRequired (.delimited .parameter .closeParen) c wp (ps, comma)
        (words wt ++ (words wb ++ r)))
      (returnType : Derives elseRequired .typeAfterColon (c.typing true) wt type (words wb ++ r))
      (inner : Derives elseRequired .functionBody (c.typing false) wb body r) :
      Derives elseRequired .primary c
        (c.leaf k :: (name.toList.map c.leaf ++ c.leaf o :: (wp ++ (wt ++ wb))))
        (.function (name.map Token.value) ps type body ()) r
  | arrowBody {c t w e r} (arrow : t.kind = .arrow)
      (value : Derives elseRequired (.statementExpr true) c w e r) :
      Derives elseRequired .functionBody c (c.leaf t :: w) (.arrow e) r
  | statementBody {c w body r} (inner : Derives elseRequired .blockBody c w body r) :
      Derives elseRequired .functionBody c w (.block body) r
  | block {c k w body r} (kind : BlockKind) (word : k.keyword? = some kind.keyword)
      (plain : c.returnType = false) (inner : Derives elseRequired .blockBody c w body r) :
      Derives elseRequired .primary c (c.leaf k :: w) (.block kind body ()) r
  | blockBody {c o k w body r} (opening : o.kind = .openCurly)
      (inner : Derives elseRequired (.statements .closeCurly) c.block w body (k :: r))
      (closing : k.kind = .closeCurly) :
      Derives elseRequired .blockBody c (c.leaf o :: (w ++ [c.block.leaf k])) body r
  /- Conditionals -/
  | conditionalValue {c w e r} (inner : Derives elseRequired (.conditional true) c w e r) :
      Derives elseRequired .primary c w e r
  | conditional {c k valueRequired wc ws wt we e t o r} (word : k.keyword? = some .if)
      (condition : Derives elseRequired (.expr .default) c wc e
        (words ws ++ (words wt ++ (words we ++ r))))
      (separator : Derives elseRequired .thenWord c ws () (words wt ++ (words we ++ r)))
      (thenBranch : Derives elseRequired (.statementExpr valueRequired) c wt t (words we ++ r))
      (elseBranch : Derives elseRequired (.elseBranch valueRequired) c we o r) :
      Derives elseRequired (.conditional valueRequired) c
        (c.leaf k :: (wc ++ (ws ++ (wt ++ we)))) (.conditional e t o ()) r
  | thenPresent {c t r} (word : t.isKeyword .then = true) :
      Derives elseRequired .thenWord c [c.leaf t] () r
  | thenAbsent {c r} (absent : isKeyword .then r = false) :
      Derives elseRequired .thenWord c [] () r
  | elsePresent {c t valueRequired w e r} (word : t.isKeyword .else = true)
      (branch : Derives elseRequired (.statementExpr valueRequired) c w e r) :
      Derives elseRequired (.elseBranch valueRequired) c (c.leaf t :: w) (some e) r
  | elseAbsent {c valueRequired r} (absent : isKeyword .else r = false)
      (allowed : (valueRequired && elseRequired) = false) :
      Derives elseRequired (.elseBranch valueRequired) c [] none r
  /- Types, declarations and updates -/
  | typePresent {c t w e r} (colon : t.kind = .colon)
      (type : Derives elseRequired (.expr .default) c w e r) :
      Derives elseRequired .typeAfterColon c (c.leaf t :: w) (some e) r
  | typeAbsent {c r} (absent : kind r ≠ .colon) :
      Derives elseRequired .typeAfterColon c [] none r
  | declaredTypePresent {c w e r} (type : Derives elseRequired (.expr .default) c w e r) :
      Derives elseRequired .declaredType c w (some e) r
  | declaredTypeAbsent {c r} (absent : kind r = .assignment) :
      Derives elseRequired .declaredType c [] none r
  | declaration {c n o a wt wv type e r} (named : n.kind = .identifier) (colon : o.kind = .colon)
      (declaredType : Derives elseRequired .declaredType c wt type (a :: (words wv ++ r)))
      (assignment : a.kind = .assignment)
      (value : Derives elseRequired (.expr .default) c wv e r) :
      Derives elseRequired .declaration c
        (c.leaf n :: c.leaf o :: (wt ++ c.leaf a :: wv)) (.declaration n.value type e ()) r
  | update {c n o operator w e r} (named : n.kind = .identifier)
      (updater : Updater.ofKind? o.kind = some operator)
      (value : Derives elseRequired (.expr .default) c w e r) :
      Derives elseRequired .update c (c.leaf n :: c.leaf o :: w)
        (.update n.value operator e ()) r
  /- Calls, members, suffixes and operators -/
  | chainEnd {c base r} (stop : endsChain c r = true) :
      Derives elseRequired (.chain base) c [] base r
  | call {c base o w v es comma e r} (sameLine : breaks c [o] = false)
      (opening : o.kind = .openParen)
      (arguments : Derives elseRequired (.delimited .expr .closeParen) c w (es, comma)
        (words v ++ r))
      (more : Derives elseRequired (.chain (.call base es ())) c v e r) :
      Derives elseRequired (.chain base) c (c.leaf o :: (w ++ v)) e r
  | member {c base o n v e r} (sameLine : breaks c [o] = false) (point : o.kind = .dot)
      (field : Parse.isField n = true)
      (more : Derives elseRequired (.chain (.member base n.value ())) c v e r) :
      Derives elseRequired (.chain base) c (c.leaf o :: c.leaf n :: v) e r
  | suffix {c base o operator v e r} (sameLine : breaks c [o] = false)
      (symbol : SuffixOperator.ofKind? o.kind = some operator)
      (noField : o.kind = .dot → isField (words v ++ r) = false)
      (more : Derives elseRequired (.chain (.suffix base operator ())) c v e r) :
      Derives elseRequired (.chain base) c (c.leaf o :: v) e r
  | operatorsEnd {c power left r} (stop : endsOperators c power r = true) :
      Derives elseRequired (.operators power left) c [] left r
  | binary {c power left o operator w v right e r} (sameLine : breaks c [o] = false)
      (symbol : BinaryOperator.ofKind? o.kind = some operator) (tighter : ¬operator.level ≤ power)
      (operand : Derives elseRequired (.expr operator.level) c w right (words v ++ r))
      (more : Derives elseRequired (.operators power (.binary left operator right ())) c v e r) :
      Derives elseRequired (.operators power left) c (c.leaf o :: (w ++ v)) e r
  | expr {c power u v w first left e r}
      (head : Derives elseRequired .primary c u first (words v ++ (words w ++ r)))
      (chain : Derives elseRequired (.chain first) c v left (words w ++ r))
      (operators : Derives elseRequired (.operators power left) c w e r) :
      Derives elseRequired (.expr power) c (u ++ (v ++ w)) e r
  /- Expressions in the place of a statement -/
  | declared {c valueRequired w e r} (inner : Derives elseRequired .declaration c w e r) :
      Derives elseRequired (.statementExpr valueRequired) c w e r
  | updated {c valueRequired w e r} (inner : Derives elseRequired .update c w e r) :
      Derives elseRequired (.statementExpr valueRequired) c w e r
  | chosen {c valueRequired w e r} (noLabel : bindsLabel (words w ++ r) = false)
      (inner : Derives elseRequired (.conditional valueRequired) c w e r) :
      Derives elseRequired (.statementExpr valueRequired) c w e r
  | plain {c valueRequired w e r} (noLabel : bindsLabel (words w ++ r) = false)
      (noConditional : isKeyword .if (words w ++ r) = false)
      (inner : Derives elseRequired (.expr .default) c w e r) :
      Derives elseRequired (.statementExpr valueRequired) c w e r
  /- Delimited lists -/
  | element {c w e r} (inner : Derives elseRequired (.expr .default) c w e r) :
      Derives elseRequired (.element .expr) c w e r
  | entry {c o v w key value r}
      (inner : Derives elseRequired (.expr .default) c v key (o :: (words w ++ r)))
      (colon : o.kind = .colon)
      (valueInner : Derives elseRequired (.expr .default) c w value r) :
      Derives elseRequired (.element .entry) c (v ++ c.leaf o :: w) ⟨key, value, ()⟩ r
  | field {c n o w value r} (named : n.kind = .identifier) (colon : o.kind = .colon)
      (inner : Derives elseRequired (.expr .default) c w value r) :
      Derives elseRequired (.element .field) c (c.leaf n :: c.leaf o :: w)
        ⟨n.value, value, ()⟩ r
  | parameter {c n w type r} (named : n.kind = .identifier)
      (inner : Derives elseRequired .typeAfterColon c w type r) :
      Derives elseRequired (.element .parameter) c (c.leaf n :: w) ⟨n.value, type, ()⟩ r
  | noElement {c slot close afterComma r} (stop : kind r = close) :
      Derives elseRequired (.elements slot close afterComma) c [] ([], afterComma) r
  | lastElement {c slot close afterComma w x r} (go : kind (words w ++ r) ≠ close)
      (inner : Derives elseRequired (.element slot) c w x r) (stop : kind r ≠ .comma) :
      Derives elseRequired (.elements slot close afterComma) c w ([x], false) r
  | moreElements {c slot close afterComma o v w x xs comma r}
      (go : kind (words v ++ o :: (words w ++ r)) ≠ close)
      (inner : Derives elseRequired (.element slot) c v x (o :: (words w ++ r)))
      (separator : o.kind = .comma)
      (more : Derives elseRequired (.elements slot close true) c w (xs, comma) r) :
      Derives elseRequired (.elements slot close afterComma) c (v ++ c.leaf o :: w)
        (x :: xs, comma) r
  | delimited {c slot close k w es r}
      (inner : Derives elseRequired (.elements slot close false) .inside w es (k :: r))
      (closing : k.kind = close) :
      Derives elseRequired (.delimited slot close) c (w ++ [Surroundings.inside.leaf k]) es r
  /- Statements -/
  | typeDefinition {c k n a w e r} (word : k.isKeyword .type = true)
      (named : n.kind = .identifier) (sameLine : n.newlineBefore = false)
      (assignment : a.kind = .assignment)
      (definition : Derives elseRequired (.expr .default) c w e r) :
      Derives elseRequired .content c (c.leaf k :: c.leaf n :: c.leaf a :: w)
        (.typeDefinition n.value e ()) r
  | expression {c w e r} (noType : definesType (words w ++ r) = false)
      (inner : Derives elseRequired (.statementExpr false) c w e r) :
      Derives elseRequired .content c w (.expression e) r
  | semicolon {c close t r} (kind : t.kind = .semicolon) :
      Derives elseRequired (.terminator close) c [c.leaf t] () r
  | noSemicolon {c close r} (stop : endsStatement close r = true) :
      Derives elseRequired (.terminator close) c [] () r
  | emptyStatement {c close t w body r} (kind : t.kind = .semicolon)
      (more : Derives elseRequired (.statements close) c w body r) :
      Derives elseRequired (.statements close) c (c.leaf t :: w) body r
  | noStatement {c close r} (stop : kind r = close) (noSemicolon : close ≠ .semicolon) :
      Derives elseRequired (.statements close) c [] [] r
  | statement {c close u v w s body r}
      (go : kind (words u ++ (words v ++ (words w ++ r))) ≠ close)
      (more : kind (words u ++ (words v ++ (words w ++ r))) ≠ .eof)
      (content : Derives elseRequired .content c u s (words v ++ (words w ++ r)))
      (terminator : Derives elseRequired (.terminator close) c v () (words w ++ r))
      (rest : Derives elseRequired (.statements close) c w body r) :
      Derives elseRequired (.statements close) c (u ++ (v ++ w)) (s :: body) r

end SurfaceGrammar

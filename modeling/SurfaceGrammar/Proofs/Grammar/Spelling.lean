import SurfaceGrammar.Proofs.Grammar.Soundness

/-!
# How a tree is spelled

Which tokens spell a tree, said by the tree alone. Every node gives its own words, names, literals,
operators and delimiters, each once and in the order of the source. A tree leaves open only
whether parentheses stand around an expression, whether a comma stands after the last element,
whether the word `then` stands after a condition, and how many semicolons stand between two
statements.

* `Commas`, `Led`: elements between commas, and a part that a token introduces.
* `Expr.Spelt`: the tokens of an expression, with the power of a binary operator that is not in
  parentheses.
* `Stmt.EachWritten`: the tokens of a list of statements.
* `written_of_parse`: the tokens of a source spell the module that is parsed from it.
-/

namespace SurfaceGrammar

open Lookahead

/-! ## Spellings -/

section Parts

variable {β : Type}

/-- Elements with a comma between any two of them, and whether one stands after the last. -/
inductive Commas (P : β → List Token → Prop) : List β → Bool → List Token → Prop
  | nil : Commas P [] false []
  | last {x ts} (element : P x ts) : Commas P [x] false ts
  | trailing {x ts k} (element : P x ts) (comma : k.kind = .comma) :
      Commas P [x] true (ts ++ [k])
  | cons {x y xs ts k us trailing} (element : P x ts) (comma : k.kind = .comma)
      (rest : Commas P (y :: xs) trailing us) :
      Commas P (x :: y :: xs) trailing (ts ++ k :: us)

/-- A part that may be left out, after the token that introduces it. -/
inductive Led (introduces : Token → Prop) (P : β → List Token → Prop) :
    Option β → List Token → Prop
  | absent : Led introduces P none []
  | present {x t ts} (lead : introduces t) (part : P x ts) : Led introduces P (some x) (t :: ts)

end Parts

/-- The token is a word that a label can have: no keyword, or one that acts as such only before
a name or an opening curly bracket. -/
def NamesLabel (t : Token) : Prop :=
  t.kind = .identifier ∧
    ∀ keyword, t.keyword? = some keyword → keyword ∈ [.type, .do, .scope, .set, .map]

/-- The word `then`, or nothing. -/
def ThenWord (ts : List Token) : Prop :=
  ts = [] ∨ ∃ t, t.isKeyword .then = true ∧ ts = [t]

/-- A run of semicolons. -/
def Semicolons (ts : List Token) : Prop :=
  ∀ t ∈ ts, t.kind = .semicolon

/-- What stands after a statement sets it off from the next one: it is nothing, or begins with a
semicolon or on a new line. -/
def SetOff : List Token → Prop
  | [] => True
  | t :: _ => t.kind = .semicolon ∨ t.newlineBefore = true

mutual

/-- The tokens that spell an expression. The power is that of a binary operator at the top of the
expression that is not in parentheses. -/
inductive Expr.Spelt : Option Power → Expr Unit → List Token → Prop
  | parenthesised {top e o ts k} (opening : o.kind = .openParen) (inner : Expr.Spelt top e ts)
      (closing : k.kind = .closeParen) : Expr.Spelt none e (o :: (ts ++ [k]))
  | number {t x} (kind : t.kind = .number)
      (value : (Decimal.read? t.value.toList).filter Binary64.isFinite = some x) :
      Expr.Spelt none (.literal (.number x) ()) [t]
  | string {t} (kind : t.kind = .string) :
      Expr.Spelt none (.literal (.string t.value) ()) [t]
  | char {t x} (kind : t.kind = .char) (value : t.value.toList = [x]) :
      Expr.Spelt none (.literal (.char x) ()) [t]
  | boolean {t} (value : Bool) (word : t.keyword? = some (.ofBool value)) :
      Expr.Spelt none (.literal (.boolean value) ()) [t]
  | label {t} (named : NamesLabel t) : Expr.Spelt none (.label t.value ()) [t]
  | tuple {o es trailing ts k} (opening : o.kind = .openParen)
      (elements : Commas Expr.Written es trailing ts)
      (single : es.length = 1 → trailing = true) (closing : k.kind = .closeParen) :
      Expr.Spelt none (.sequence .tuple es ()) (o :: (ts ++ [k]))
  | array {o es trailing ts k} (opening : o.kind = .openBracket)
      (elements : Commas Expr.Written es trailing ts) (closing : k.kind = .closeBracket) :
      Expr.Spelt none (.sequence .array es ()) (o :: (ts ++ [k]))
  | set {word o es trailing ts k} (keyword : word.keyword? = some .set)
      (opening : o.kind = .openCurly) (elements : Commas Expr.Written es trailing ts)
      (closing : k.kind = .closeCurly) :
      Expr.Spelt none (.sequence .set es ()) (word :: o :: (ts ++ [k]))
  | mapping {word o es trailing ts k} (keyword : word.keyword? = some .map)
      (opening : o.kind = .openCurly) (entries : Commas Entry.Written es trailing ts)
      (closing : k.kind = .closeCurly) :
      Expr.Spelt none (.mapping es ()) (word :: o :: (ts ++ [k]))
  | object {o fs trailing ts k} (opening : o.kind = .openCurly)
      (fields : Commas Field.Written fs trailing ts) (closing : k.kind = .closeCurly) :
      Expr.Spelt none (.object fs ()) (o :: (ts ++ [k]))
  | function {word o k} {name : Option Token} {ps trailing ts type us body vs}
      (keyword : word.keyword? = some .fn) (named : ∀ n ∈ name, n.kind = .identifier)
      (opening : o.kind = .openParen) (parameters : Commas Parameter.Written ps trailing ts)
      (closing : k.kind = .closeParen)
      (returnType : Led (fun t => t.kind = .colon) Expr.Written type us)
      (inner : Body.Written body vs) :
      Expr.Spelt none (.function (name.map Token.value) ps type body ())
        (word :: (name.toList ++ o :: (ts ++ k :: (us ++ vs))))
  | call {base ts o es trailing us k} (callee : Expr.Spelt none base ts)
      (opening : o.kind = .openParen) (arguments : Commas Expr.Written es trailing us)
      (closing : k.kind = .closeParen) :
      Expr.Spelt none (.call base es ()) (ts ++ o :: (us ++ [k]))
  | member {base ts o n} (inner : Expr.Spelt none base ts) (point : o.kind = .dot)
      (named : n.kind = .identifier) :
      Expr.Spelt none (.member base n.value ()) (ts ++ [o, n])
  | suffix {base ts o operator} (inner : Expr.Spelt none base ts)
      (symbol : SuffixOperator.ofKind? o.kind = some operator) :
      Expr.Spelt none (.suffix base operator ()) (ts ++ [o])
  | binary {first left ts o operator second right us} (leftInner : Expr.Spelt first left ts)
      (leftPower : ∀ power ∈ first, operator.level ≤ power)
      (symbol : BinaryOperator.ofKind? o.kind = some operator)
      (rightInner : Expr.Spelt second right us)
      (rightPower : ∀ power ∈ second, ¬power ≤ operator.level) :
      Expr.Spelt (some operator.level) (.binary left operator right ()) (ts ++ o :: us)
  | conditional {word condition ts us thenBranch vs elseBranch ws}
      (keyword : word.keyword? = some .if) (test : Expr.Written condition ts)
      (separator : ThenWord us)
      (first : Expr.Written thenBranch vs)
      (second : Led (fun t => t.isKeyword .else = true) Expr.Written elseBranch ws) :
      Expr.Spelt none (.conditional condition thenBranch elseBranch ())
        (word :: (ts ++ (us ++ (vs ++ ws))))
  | block {word o body ts k} (kind : BlockKind) (keyword : word.keyword? = some kind.keyword)
      (opening : o.kind = .openCurly) (inner : Stmt.EachWritten body ts)
      (closing : k.kind = .closeCurly) :
      Expr.Spelt none (.block kind body ()) (word :: o :: (ts ++ [k]))
  | typedDeclaration {n o type ts a value us} (named : n.kind = .identifier)
      (colon : o.kind = .colon) (declaredType : Expr.Written type ts)
      (assignment : a.kind = .assignment) (inner : Expr.Written value us) :
      Expr.Spelt none (.declaration n.value (some type) value ()) (n :: o :: (ts ++ a :: us))
  | declaration {n o a value us} (named : n.kind = .identifier) (colon : o.kind = .colon)
      (assignment : a.kind = .assignment) (inner : Expr.Written value us) :
      Expr.Spelt none (.declaration n.value none value ()) (n :: o :: a :: us)
  | update {n o operator value us} (named : n.kind = .identifier)
      (updater : Updater.ofKind? o.kind = some operator) (inner : Expr.Written value us) :
      Expr.Spelt none (.update n.value operator value ()) (n :: o :: us)

/-- The tokens that spell an expression, whatever stands at its top. -/
inductive Expr.Written : Expr Unit → List Token → Prop
  | intro {top e ts} (spelt : Expr.Spelt top e ts) : Expr.Written e ts

/-- The tokens that spell a key with its value. -/
inductive Entry.Written : Entry Unit → List Token → Prop
  | intro {key ts o value us} (first : Expr.Written key ts) (colon : o.kind = .colon)
      (second : Expr.Written value us) : Entry.Written ⟨key, value, ()⟩ (ts ++ o :: us)

/-- The tokens that spell a label with its value. -/
inductive Field.Written : Field Unit → List Token → Prop
  | intro {n o value us} (named : n.kind = .identifier) (colon : o.kind = .colon)
      (inner : Expr.Written value us) : Field.Written ⟨n.value, value, ()⟩ (n :: o :: us)

/-- The tokens that spell a parameter. -/
inductive Parameter.Written : Parameter Unit → List Token → Prop
  | intro {n type us} (named : n.kind = .identifier)
      (inner : Led (fun t => t.kind = .colon) Expr.Written type us) :
      Parameter.Written ⟨n.value, type, ()⟩ (n :: us)

/-- The tokens that spell the body of a function. -/
inductive Body.Written : Body Unit → List Token → Prop
  | arrow {t value us} (arrow : t.kind = .arrow) (inner : Expr.Written value us) :
      Body.Written (.arrow value) (t :: us)
  | block {o body ts k} (opening : o.kind = .openCurly) (inner : Stmt.EachWritten body ts)
      (closing : k.kind = .closeCurly) : Body.Written (.block body) (o :: (ts ++ [k]))

/-- The tokens that spell a statement. -/
inductive Stmt.Written : Stmt Unit → List Token → Prop
  | expression {e ts} (inner : Expr.Written e ts) : Stmt.Written (.expression e) ts
  | typeDefinition {word n a definition ts} (keyword : word.isKeyword .type = true)
      (named : n.kind = .identifier) (assignment : a.kind = .assignment)
      (inner : Expr.Written definition ts) :
      Stmt.Written (.typeDefinition n.value definition ()) (word :: n :: a :: ts)

/-- The tokens that spell statements one after another, each set off from the next one. -/
inductive Stmt.EachWritten : List (Stmt Unit) → List Token → Prop
  | nil {run} (semicolons : Semicolons run) : Stmt.EachWritten [] run
  | cons {run s ts ss us} (semicolons : Semicolons run) (first : Stmt.Written s ts)
      (setOff : SetOff us) (rest : Stmt.EachWritten ss us) :
      Stmt.EachWritten (s :: ss) (run ++ (ts ++ us))

end

/-! ## From derivations to spellings -/

/-- The tokens that spell what stands in a slot. -/
def Slot.Written : (slot : Slot) → slot.Tree Unit → List Token → Prop
  | .expr => Expr.Written
  | .entry => Entry.Written
  | .field => Field.Written
  | .parameter => Parameter.Written

/-- What a phrase says about its tokens, the tree for which it stands and the tokens after it. The
operators that follow an expression are counted in: an expression ends before an operator that
does not bind more tightly than its power. -/
def Phrase.Spells (c : Surroundings) (ts r : List Token) : (p : Phrase) → p.Tree Unit → Prop
  | .primary, e | .conditional _, e | .declaration, e | .update, e => Expr.Spelt none e ts
  | .statementExpr _, e => Expr.Written e ts
  | .thenWord, _ => ThenWord ts
  | .elseBranch _, o => Led (fun t => t.isKeyword .else = true) Expr.Written o ts
  | .typeAfterColon, o => Led (fun t => t.kind = .colon) Expr.Written o ts
  | .declaredType, o => (o = none ∧ ts = []) ∨ ∃ e, o = some e ∧ Expr.Written e ts
  | .functionBody, body => Body.Written body ts
  | .chain base, e => ∀ us, Expr.Spelt none base us → Expr.Spelt none e (us ++ ts)
  | .operators power left, e =>
    (∀ first us, Expr.Spelt first left us →
      (∀ level ∈ first, ¬level ≤ power ∧ endsOperators c level (ts ++ r) = true) →
      ∃ top, Expr.Spelt top e (us ++ ts) ∧ ∀ level ∈ top, ¬level ≤ power) ∧
    endsOperators c power r = true
  | .expr power, e =>
    (∃ top, Expr.Spelt top e ts ∧ ∀ level ∈ top, ¬level ≤ power) ∧
    endsOperators c power r = true
  | .element slot, x => slot.Written x ts
  | .elements slot _ afterComma, (xs, trailing) =>
    if xs = [] then ts = [] ∧ trailing = afterComma else Commas slot.Written xs trailing ts
  | .delimited slot close, (xs, trailing) =>
    ∃ us k, ts = us ++ [k] ∧ k.kind = close ∧ Commas slot.Written xs trailing us
  | .content, s => Stmt.Written s ts
  | .terminator close, _ =>
    (ts = [] ∧ endsStatement close r = true) ∨ ∃ t, t.kind = .semicolon ∧ ts = [t]
  | .statements close, body =>
    Stmt.EachWritten body ts ∧
    ∀ t us, ts = t :: us → t.kind = .semicolon ∨ (t.kind ≠ close ∧ t.kind ≠ .eof)
  | .blockBody, body =>
    ∃ o us k, ts = o :: (us ++ [k]) ∧ o.kind = .openCurly ∧ k.kind = .closeCurly ∧
      Stmt.EachWritten body us

section Commas

variable {β : Type} {P : β → List Token → Prop} {x : β} {xs : List β} {ts us : List Token}
  {k : Token} {trailing : Bool}

/-- An element and a comma before other elements, or before none. -/
theorem Commas.more (hx : P x ts) (hk : k.kind = .comma)
    (h : if xs = [] then us = [] ∧ trailing = true else Commas P xs trailing us) :
    Commas P (x :: xs) trailing (ts ++ k :: us) := by
  cases xs with
  | nil =>
    obtain ⟨rfl, rfl⟩ := if_pos rfl ▸ h
    exact .trailing hx hk
  | cons y xs =>
    rw [if_neg (List.cons_ne_nil y xs)] at h
    exact .cons hx hk h

/-- Elements after an opening delimiter, or none. -/
theorem Commas.of_opening
    (h : if xs = [] then ts = [] ∧ trailing = false else Commas P xs trailing ts) :
    Commas P xs trailing ts := by
  cases xs with
  | nil =>
    obtain ⟨rfl, rfl⟩ := if_pos rfl ▸ h
    exact .nil
  | cons y xs => rwa [if_neg (List.cons_ne_nil y xs)] at h

end Commas

section Spells

variable {c : Surroundings} {r : List Token}

theorem namesLabel_of_plainLabel {t : Token} (h : plainLabel c t r = true) : NamesLabel t := by
  have hkind : t.kind = .identifier := by
    simpa using (Bool.and_eq_true_iff.mp h).1
  refine ⟨hkind, fun keyword hword => ?_⟩
  simp only [plainLabel, hkind, hword] at h
  cases keyword <;> simp_all

/-- An operator at which the operators after another one end binds less tightly, or just as
tightly. -/
theorem le_of_endsOperators {o : Token} {operator : BinaryOperator} {power : Power}
    {ts : List Token} (sameLine : breaks c [o] = false)
    (symbol : BinaryOperator.ofKind? o.kind = some operator)
    (h : endsOperators c power (o :: ts) = true) : operator.level ≤ power := by
  have hsame : breaks c (o :: ts) = false := sameLine
  simpa [endsOperators, hsame, symbol] using h

/-- A semicolon before written statements makes their first run longer. -/
theorem Stmt.EachWritten.semicolon {t : Token} {body : List (Stmt Unit)} {ts : List Token}
    (h : Stmt.EachWritten body ts) (ht : t.kind = .semicolon) :
    Stmt.EachWritten body (t :: ts) := by
  cases h with
  | nil run => exact .nil (by simpa [Semicolons, ht] using run)
  | @cons run s us ss vs semicolons first setOff rest =>
    have hrun : Semicolons (t :: run) := by simpa [Semicolons, ht] using semicolons
    exact .cons hrun first setOff rest

/-- What ends a statement sets it off from the statements after it. -/
theorem setOff_of_terminator {close : TokenKind} {ts us : List Token}
    (hend : (ts = [] ∧ endsStatement close (us ++ r) = true) ∨
      ∃ t, t.kind = .semicolon ∧ ts = [t])
    (hrest : ∀ t vs, us = t :: vs → t.kind = .semicolon ∨ (t.kind ≠ close ∧ t.kind ≠ .eof)) :
    SetOff (ts ++ us) := by
  obtain ⟨rfl, hend⟩ | ⟨t, ht, rfl⟩ := hend
  · cases us with
    | nil => trivial
    | cons t vs =>
      obtain hsemicolon | ⟨hclose, heof⟩ := hrest t vs rfl
      · exact .inl hsemicolon
      · obtain ⟨-, hclosed | hended | hline⟩ := endsStatement_cons_iff.mp hend
        · exact absurd hclosed hclose
        · exact absurd hended heof
        · exact .inr hline
  · exact .inl ht

theorem Stmt.EachWritten.terminated {close : TokenKind} {s : Stmt Unit} {body : List (Stmt Unit)}
    {ts us vs : List Token} (hs : Stmt.Written s ts)
    (hend : (us = [] ∧ endsStatement close (vs ++ r) = true) ∨
      ∃ t, t.kind = .semicolon ∧ us = [t])
    (hbody : Stmt.EachWritten body vs)
    (hrest : ∀ t ws, vs = t :: ws → t.kind = .semicolon ∨ (t.kind ≠ close ∧ t.kind ≠ .eof)) :
    Stmt.EachWritten (s :: body) (ts ++ (us ++ vs)) := by
  have hsetOff := setOff_of_terminator hend hrest
  have hbody' : Stmt.EachWritten body (us ++ vs) := by
    obtain ⟨rfl, -⟩ | ⟨t, ht, rfl⟩ := hend
    · exact hbody
    · exact hbody.semicolon ht
  have hrun : Semicolons [] := by simp [Semicolons]
  have hcons := Stmt.EachWritten.cons hrun hs hsetOff hbody'
  rwa [List.nil_append] at hcons

end Spells

/-- The leaves of a phrase spell its tree. The induction is on the derivation; what the motive says
about the operators that follow an expression decides which operators may stand in its left and
right operands. -/
theorem Derives.spells {elseRequired : Bool} {p : Phrase} {c : Surroundings} {w : List Leaf}
    {v : p.Tree Unit} {r : List Token} (h : Derives elseRequired p c w v r) :
    p.Spells c (words w) r v := by
  induction h with
  | number kind value => exact .number kind value
  | string kind => exact .string kind
  | char kind value => exact .char kind value
  | boolean value word => exact .boolean value word
  | label plain => exact .label (namesLabel_of_plainLabel plain)
  | grouping opening inner ih =>
    obtain ⟨us, k, hwords, hk, helements⟩ := ih
    rw [words_cons, hwords]
    cases helements with
    | last element =>
      obtain ⟨spelt⟩ := element
      exact .parenthesised opening spelt hk
  | tuple opening inner single ih =>
    obtain ⟨us, k, hwords, hk, helements⟩ := ih
    rw [words_cons, hwords]
    exact .tuple opening helements single hk
  | array opening inner ih =>
    obtain ⟨us, k, hwords, hk, helements⟩ := ih
    rw [words_cons, hwords]
    exact .array opening helements hk
  | set word plain opening inner ih =>
    obtain ⟨us, k, hwords, hk, helements⟩ := ih
    rw [words_cons, words_cons, hwords]
    exact .set word opening helements hk
  | mapping word plain opening inner ih =>
    obtain ⟨us, k, hwords, hk, helements⟩ := ih
    rw [words_cons, words_cons, hwords]
    exact .mapping word opening helements hk
  | object opening inner ih =>
    obtain ⟨us, k, hwords, hk, helements⟩ := ih
    rw [words_cons, hwords]
    exact .object opening helements hk
  | @function c k o name wp wt wb ps comma type body r word named opening parameters returnType
      inner ihp iht ihb =>
    obtain ⟨us, k, hwords, hk, helements⟩ := ihp
    have hname : words (name.toList.map c.leaf) = name.toList := by
      simp [words, Function.comp_def]
    have hspelt := Expr.Spelt.function word named opening helements hk iht ihb
    simpa [Phrase.Spells, hname, hwords] using hspelt
  | arrowBody arrow value ih => exact .arrow arrow ih
  | statementBody inner ih =>
    obtain ⟨o, us, k, hwords, ho, hk, hbody⟩ := ih
    rw [hwords]
    exact .block ho hbody hk
  | block kind word plain inner ih =>
    obtain ⟨o, us, k, hwords, ho, hk, hbody⟩ := ih
    rw [words_cons, hwords]
    exact .block kind word ho hbody hk
  | @blockBody c o k w body r opening inner closing ih =>
    exact ⟨o, words w, k, by simp, opening, closing, ih.1⟩
  | conditionalValue inner ih => exact ih
  | conditional word condition separator thenBranch elseBranch ihc ihs iht ihe =>
    obtain ⟨⟨top, hcondition, -⟩, -⟩ := ihc
    simpa [Phrase.Spells] using Expr.Spelt.conditional word ⟨hcondition⟩ ihs iht ihe
  | @thenPresent c t r word => exact .inr ⟨t, word, rfl⟩
  | thenAbsent absent => exact .inl rfl
  | elsePresent word branch ih => exact .present word ih
  | elseAbsent absent allowed => exact .absent
  | typePresent colon type ih =>
    obtain ⟨⟨top, htype, -⟩, -⟩ := ih
    exact .present colon ⟨htype⟩
  | typeAbsent absent => exact .absent
  | @declaredTypePresent c w e r type ih =>
    obtain ⟨⟨top, htype, -⟩, -⟩ := ih
    exact .inr ⟨e, rfl, ⟨htype⟩⟩
  | declaredTypeAbsent absent => exact .inl ⟨rfl, rfl⟩
  | declaration named colon declaredType assignment value iht ihv =>
    obtain ⟨⟨top, hvalue, -⟩, -⟩ := ihv
    obtain ⟨rfl, hwords⟩ | ⟨type, rfl, htype⟩ := iht
    · simpa [Phrase.Spells, hwords] using Expr.Spelt.declaration named colon assignment ⟨hvalue⟩
    · simpa [Phrase.Spells] using
        Expr.Spelt.typedDeclaration named colon htype assignment ⟨hvalue⟩
  | update named updater value ih =>
    obtain ⟨⟨top, hvalue, -⟩, -⟩ := ih
    exact .update named updater ⟨hvalue⟩
  | chainEnd stop =>
    intro us hus
    simpa using hus
  | call sameLine opening arguments more iha ihm =>
    intro us hus
    obtain ⟨vs, k, hwords, hk, helements⟩ := iha
    have hcall := ihm _ (.call hus opening helements hk)
    simpa [hwords] using hcall
  | @member c base o n v e r sameLine point field more ih =>
    intro us hus
    have hmember := ih _ (.member hus point (Parse.kind_of_isField field))
    simpa using hmember
  | suffix sameLine symbol noField more ih =>
    intro us hus
    have hsuffix := ih _ (.suffix hus symbol)
    simpa using hsuffix
  | operatorsEnd stop =>
    refine ⟨fun first us hus hfirst => ⟨first, by simpa using hus, ?_⟩, stop⟩
    exact fun level hlevel => (hfirst level hlevel).1
  | @binary c power left o operator w v right e r sameLine symbol tighter operand more iho ihm =>
    obtain ⟨⟨second, hright, hsecond⟩, hstop⟩ := iho
    obtain ⟨hmore, hend⟩ := ihm
    refine ⟨fun first us hus hfirst => ?_, hend⟩
    have hleft : ∀ level ∈ first, operator.level ≤ level := fun level hlevel =>
      le_of_endsOperators sameLine symbol (hfirst level hlevel).2
    have hbinary := hmore _ _ (.binary hus hleft symbol hright hsecond) ?_
    · simpa using hbinary
    · intro level hlevel
      cases hlevel
      exact ⟨tighter, hstop⟩
  | expr head chain operators ihh ihc iho =>
    obtain ⟨hoperators, hend⟩ := iho
    refine ⟨?_, hend⟩
    have htop := hoperators none _ (ihc _ ihh) (by simp)
    simpa using htop
  | declared inner ih => exact ⟨ih⟩
  | updated inner ih => exact ⟨ih⟩
  | chosen noLabel inner ih => exact ⟨ih⟩
  | plain noLabel noConditional inner ih =>
    obtain ⟨⟨top, hspelt, -⟩, -⟩ := ih
    exact ⟨hspelt⟩
  | element inner ih =>
    obtain ⟨⟨top, hspelt, -⟩, -⟩ := ih
    exact ⟨hspelt⟩
  | entry inner colon valueInner ihk ihv =>
    obtain ⟨⟨top, hkey, -⟩, -⟩ := ihk
    obtain ⟨⟨top', hvalue, -⟩, -⟩ := ihv
    simpa [Phrase.Spells, Slot.Written] using Entry.Written.intro ⟨hkey⟩ colon ⟨hvalue⟩
  | field named colon inner ih =>
    obtain ⟨⟨top, hvalue, -⟩, -⟩ := ih
    exact Field.Written.intro named colon ⟨hvalue⟩
  | parameter named inner ih => exact Parameter.Written.intro named ih
  | noElement stop => simp [Phrase.Spells]
  | lastElement go inner stop ih =>
    simp only [Phrase.Spells, if_neg (List.cons_ne_nil _ _)]
    exact .last ih
  | @moreElements c slot close afterComma o v w x xs comma r go inner separator more ihx ihm =>
    simp only [Phrase.Spells] at ihx ihm ⊢
    rw [if_neg (List.cons_ne_nil x xs), words_append, words_cons, Surroundings.token_leaf]
    exact .more ihx separator ihm
  | @delimited c slot close k w es r inner closing ih =>
    obtain ⟨xs, trailing⟩ := es
    exact ⟨words w, k, by simp, closing, .of_opening ih⟩
  | typeDefinition word named sameLine assignment definition ih =>
    obtain ⟨⟨top, hdefinition, -⟩, -⟩ := ih
    exact .typeDefinition word named assignment ⟨hdefinition⟩
  | expression noType inner ih => exact .expression ih
  | @semicolon c close t r kind => exact .inr ⟨t, kind, rfl⟩
  | noSemicolon stop => exact .inl ⟨rfl, stop⟩
  | emptyStatement kind more ih =>
    refine ⟨ih.1.semicolon kind, fun t us htokens => ?_⟩
    cases htokens
    exact .inl kind
  | noStatement stop noSemicolon =>
    exact ⟨.nil (by simp [Semicolons]), fun t us h => absurd h.symm (List.cons_ne_nil t us)⟩
  | @statement c close u v w s body r go more content terminator rest ihc iht ihr =>
    rw [words_append, words_append]
    refine ⟨.terminated ihc iht ihr.1 ihr.2, fun t us htokens => .inr ?_⟩
    rw [← List.append_assoc (words v), ← List.append_assoc, htokens] at go more
    exact ⟨go, more⟩

/-- The tokens of a source spell the module that is parsed from it: read from left to right, the
tree gives every token of the source exactly once, up to the choices that a tree leaves open. -/
theorem written_of_parse {source : String} {settings : Settings} {m : Module}
    (h : parse source settings = .ok m) :
    ∃ tokens stop, tokenize source settings.file = .ok (tokens ++ [stop]) ∧ stop.kind = .eof ∧
      (∀ t ∈ tokens, t.kind ≠ .eof) ∧ Stmt.EachWritten m.bare tokens := by
  obtain ⟨w, stop, hstream, hderives⟩ := derives_of_parse h
  have hproper := TokenStream.proper_ofScanner settings.file (Scanner.ofSource source)
  change (TokenStream.ofSource source settings.file).Proper at hproper
  rw [hstream] at hproper
  refine ⟨words w, stop, ?_, hproper.ending stop rfl, ?_, hderives.spells.1⟩
  · rw [tokenize, hstream]
    rfl
  · exact fun t ht => (hproper.tokens t ht).ne_eof

/-- Two statements on two lines, with redundant parentheses, a trailing comma and a conditional
without the word `then`, are spelled by the tokens of their source. -/
theorem written_of_parse_two_lines :
    ∃ m, parse "f((a), b ^ -1,).d;;\nif x y: = [2] else z <- do \x7b p; q \x7d" {} = .ok m ∧
      ∃ tokens stop,
        tokenize "f((a), b ^ -1,).d;;\nif x y: = [2] else z <- do \x7b p; q \x7d" "shell" =
          .ok (tokens ++ [stop]) ∧
        stop.kind = .eof ∧ (∀ t ∈ tokens, t.kind ≠ .eof) ∧ Stmt.EachWritten m.bare tokens := by
  have hok : (parse "f((a), b ^ -1,).d;;\nif x y: = [2] else z <- do \x7b p; q \x7d" {}).isOk := by
    decide +kernel
  cases hparse : parse "f((a), b ^ -1,).d;;\nif x y: = [2] else z <- do \x7b p; q \x7d" {} with
  | error failure =>
    rw [hparse] at hok
    cases hok
  | ok m => exact ⟨m, rfl, written_of_parse hparse⟩

end SurfaceGrammar

import SurfaceGrammar.Proofs.Grammar.Spelling

/-!
# No expression goes on over a line break

The tokens that spell a tree, with what the tree says of the line breaks between them. Line breaks
mean nothing between the parentheses of a call, a tuple, a grouping or a list of parameters, between
the brackets of an array, and between the curly brackets of a set, a map or an object. The curly
brackets of a block and of the body of a function make them significant again. Where they are
significant, no line break stands before a token that goes on with the expression before it: a
binary operator, the opening parenthesis of a call, the point of a member and a suffix.

* `GoesOn`: a token that goes on with an expression.
* `Expr.Unbroken`: the tokens of an expression.
* `Stmt.EachUnbroken`: the tokens of a list of statements.
* `unbroken_of_parse`: how the tokens of a source spell the module that is parsed from it.
-/

namespace SurfaceGrammar

open Lookahead

/-! ## Spellings without breaks -/

/-- The token may go on with an expression: it stands on the same line, or line breaks mean nothing
where it stands. -/
def GoesOn (inside : Bool) (t : Token) : Prop :=
  t.newlineBefore = false ∨ inside = true

mutual

/-- The tokens that spell an expression and do not break off. The innermost delimiter around the
expression is one inside which line breaks mean nothing, or not. -/
inductive Expr.Unbroken : Bool → Expr Unit → List Token → Prop
  /-- A literal or a label. -/
  | token {inside top e t} (spelt : Expr.Spelt top e [t]) : Expr.Unbroken inside e [t]
  | grouping {inside e o ts k} (opening : o.kind = .openParen) (inner : Expr.Unbroken true e ts)
      (closing : k.kind = .closeParen) : Expr.Unbroken inside e (o :: (ts ++ [k]))
  | tuple {inside o es trailing ts k} (opening : o.kind = .openParen)
      (elements : Commas (Expr.Unbroken true) es trailing ts) (closing : k.kind = .closeParen) :
      Expr.Unbroken inside (.sequence .tuple es ()) (o :: (ts ++ [k]))
  | array {inside o es trailing ts k} (opening : o.kind = .openBracket)
      (elements : Commas (Expr.Unbroken true) es trailing ts) (closing : k.kind = .closeBracket) :
      Expr.Unbroken inside (.sequence .array es ()) (o :: (ts ++ [k]))
  | set {inside word o es trailing ts k} (keyword : word.keyword? = some .set)
      (opening : o.kind = .openCurly) (elements : Commas (Expr.Unbroken true) es trailing ts)
      (closing : k.kind = .closeCurly) :
      Expr.Unbroken inside (.sequence .set es ()) (word :: o :: (ts ++ [k]))
  | mapping {inside word o es trailing ts k} (keyword : word.keyword? = some .map)
      (opening : o.kind = .openCurly) (entries : Commas (Entry.Unbroken true) es trailing ts)
      (closing : k.kind = .closeCurly) :
      Expr.Unbroken inside (.mapping es ()) (word :: o :: (ts ++ [k]))
  | object {inside o fs trailing ts k} (opening : o.kind = .openCurly)
      (fields : Commas (Field.Unbroken true) fs trailing ts) (closing : k.kind = .closeCurly) :
      Expr.Unbroken inside (.object fs ()) (o :: (ts ++ [k]))
  | function {inside word o k} {name : Option Token} {ps trailing ts type us body vs}
      (keyword : word.keyword? = some .fn) (named : ∀ n ∈ name, n.kind = .identifier)
      (opening : o.kind = .openParen) (parameters : Commas (Parameter.Unbroken true) ps trailing ts)
      (closing : k.kind = .closeParen)
      (returnType : Expr.LedUnbroken (fun t => t.kind = .colon) inside type us)
      (inner : Body.Unbroken inside body vs) :
      Expr.Unbroken inside (.function (name.map Token.value) ps type body ())
        (word :: (name.toList ++ o :: (ts ++ k :: (us ++ vs))))
  | call {inside base ts o es trailing us k} (callee : Expr.Unbroken inside base ts)
      (goesOn : GoesOn inside o) (opening : o.kind = .openParen)
      (arguments : Commas (Expr.Unbroken true) es trailing us) (closing : k.kind = .closeParen) :
      Expr.Unbroken inside (.call base es ()) (ts ++ o :: (us ++ [k]))
  | member {inside base ts o n} (inner : Expr.Unbroken inside base ts) (goesOn : GoesOn inside o)
      (point : o.kind = .dot) (named : n.kind = .identifier) (sameLine : n.newlineBefore = false) :
      Expr.Unbroken inside (.member base n.value ()) (ts ++ [o, n])
  | suffix {inside base ts o operator} (inner : Expr.Unbroken inside base ts)
      (goesOn : GoesOn inside o) (symbol : SuffixOperator.ofKind? o.kind = some operator) :
      Expr.Unbroken inside (.suffix base operator ()) (ts ++ [o])
  | binary {inside left ts o operator right us} (leftInner : Expr.Unbroken inside left ts)
      (goesOn : GoesOn inside o) (symbol : BinaryOperator.ofKind? o.kind = some operator)
      (rightInner : Expr.Unbroken inside right us) :
      Expr.Unbroken inside (.binary left operator right ()) (ts ++ o :: us)
  | conditional {inside word condition ts us thenBranch vs elseBranch ws}
      (keyword : word.keyword? = some .if) (test : Expr.Unbroken inside condition ts)
      (separator : ThenWord us) (first : Expr.Unbroken inside thenBranch vs)
      (second : Expr.LedUnbroken (fun t => t.isKeyword .else = true) inside elseBranch ws) :
      Expr.Unbroken inside (.conditional condition thenBranch elseBranch ())
        (word :: (ts ++ (us ++ (vs ++ ws))))
  | block {inside word o body ts k} (kind : BlockKind)
      (keyword : word.keyword? = some kind.keyword) (opening : o.kind = .openCurly)
      (inner : Stmt.EachUnbroken false body ts) (closing : k.kind = .closeCurly) :
      Expr.Unbroken inside (.block kind body ()) (word :: o :: (ts ++ [k]))
  | typedDeclaration {inside n o type ts a value us} (named : n.kind = .identifier)
      (colon : o.kind = .colon) (declaredType : Expr.Unbroken inside type ts)
      (assignment : a.kind = .assignment) (inner : Expr.Unbroken inside value us) :
      Expr.Unbroken inside (.declaration n.value (some type) value ()) (n :: o :: (ts ++ a :: us))
  | declaration {inside n o a value us} (named : n.kind = .identifier) (colon : o.kind = .colon)
      (assignment : a.kind = .assignment) (inner : Expr.Unbroken inside value us) :
      Expr.Unbroken inside (.declaration n.value none value ()) (n :: o :: a :: us)
  | update {inside n o operator value us} (named : n.kind = .identifier)
      (updater : Updater.ofKind? o.kind = some operator) (inner : Expr.Unbroken inside value us) :
      Expr.Unbroken inside (.update n.value operator value ()) (n :: o :: us)

/-- The tokens of an expression that may be left out, after the token that introduces it. -/
inductive Expr.LedUnbroken : (Token → Prop) → Bool → Option (Expr Unit) → List Token → Prop
  | absent {introduces inside} : Expr.LedUnbroken introduces inside none []
  | present {introduces inside e t ts} (lead : introduces t) (part : Expr.Unbroken inside e ts) :
      Expr.LedUnbroken introduces inside (some e) (t :: ts)

/-- The tokens that spell a key with its value and do not break off. -/
inductive Entry.Unbroken : Bool → Entry Unit → List Token → Prop
  | intro {inside key ts o value us} (first : Expr.Unbroken inside key ts) (colon : o.kind = .colon)
      (second : Expr.Unbroken inside value us) :
      Entry.Unbroken inside ⟨key, value, ()⟩ (ts ++ o :: us)

/-- The tokens that spell a label with its value and do not break off. -/
inductive Field.Unbroken : Bool → Field Unit → List Token → Prop
  | intro {inside n o value us} (named : n.kind = .identifier) (colon : o.kind = .colon)
      (inner : Expr.Unbroken inside value us) :
      Field.Unbroken inside ⟨n.value, value, ()⟩ (n :: o :: us)

/-- The tokens that spell a parameter and do not break off. -/
inductive Parameter.Unbroken : Bool → Parameter Unit → List Token → Prop
  | intro {inside n type us} (named : n.kind = .identifier)
      (inner : Expr.LedUnbroken (fun t => t.kind = .colon) inside type us) :
      Parameter.Unbroken inside ⟨n.value, type, ()⟩ (n :: us)

/-- The tokens that spell the body of a function and do not break off. -/
inductive Body.Unbroken : Bool → Body Unit → List Token → Prop
  | arrow {inside t value us} (arrow : t.kind = .arrow) (inner : Expr.Unbroken inside value us) :
      Body.Unbroken inside (.arrow value) (t :: us)
  | block {inside o body ts k} (opening : o.kind = .openCurly)
      (inner : Stmt.EachUnbroken false body ts) (closing : k.kind = .closeCurly) :
      Body.Unbroken inside (.block body) (o :: (ts ++ [k]))

/-- The tokens that spell a statement and do not break off. -/
inductive Stmt.Unbroken : Bool → Stmt Unit → List Token → Prop
  | expression {inside e ts} (inner : Expr.Unbroken inside e ts) :
      Stmt.Unbroken inside (.expression e) ts
  | typeDefinition {inside word n a definition ts} (keyword : word.isKeyword .type = true)
      (named : n.kind = .identifier) (assignment : a.kind = .assignment)
      (inner : Expr.Unbroken inside definition ts) :
      Stmt.Unbroken inside (.typeDefinition n.value definition ()) (word :: n :: a :: ts)

/-- The tokens that spell statements one after another, none of which breaks off. -/
inductive Stmt.EachUnbroken : Bool → List (Stmt Unit) → List Token → Prop
  | nil {inside run} (semicolons : Semicolons run) : Stmt.EachUnbroken inside [] run
  | cons {inside run s ts ss us} (semicolons : Semicolons run) (first : Stmt.Unbroken inside s ts)
      (setOff : SetOff us) (rest : Stmt.EachUnbroken inside ss us) :
      Stmt.EachUnbroken inside (s :: ss) (run ++ (ts ++ us))

end

/-! ## From derivations to spellings -/

/-- The tokens that spell what stands in a slot and do not break off. -/
def Slot.Unbroken : (slot : Slot) → Bool → slot.Tree Unit → List Token → Prop
  | .expr => Expr.Unbroken
  | .entry => Entry.Unbroken
  | .field => Field.Unbroken
  | .parameter => Parameter.Unbroken

/-- What a phrase says about its tokens and the tree for which it stands. Calls, members, suffixes
and operators go on with whatever expression stands before them. -/
def Phrase.Unbroken (inside : Bool) (ts r : List Token) : (p : Phrase) → p.Tree Unit → Prop
  | .primary, e | .conditional _, e | .declaration, e | .update, e | .expr _, e
  | .statementExpr _, e => Expr.Unbroken inside e ts
  | .thenWord, _ => ThenWord ts
  | .elseBranch _, o => Expr.LedUnbroken (fun t => t.isKeyword .else = true) inside o ts
  | .typeAfterColon, o => Expr.LedUnbroken (fun t => t.kind = .colon) inside o ts
  | .declaredType, o => (o = none ∧ ts = []) ∨ ∃ e, o = some e ∧ Expr.Unbroken inside e ts
  | .functionBody, body => Body.Unbroken inside body ts
  | .chain base, e | .operators _ base, e =>
    ∀ us, Expr.Unbroken inside base us → Expr.Unbroken inside e (us ++ ts)
  | .element slot, x => slot.Unbroken inside x ts
  | .elements slot _ afterComma, (xs, trailing) =>
    if xs = [] then ts = [] ∧ trailing = afterComma
    else Commas (slot.Unbroken inside) xs trailing ts
  | .delimited slot close, (xs, trailing) =>
    ∃ us k, ts = us ++ [k] ∧ k.kind = close ∧ Commas (slot.Unbroken true) xs trailing us
  | .content, s => Stmt.Unbroken inside s ts
  | .terminator close, _ =>
    (ts = [] ∧ endsStatement close r = true) ∨ ∃ t, t.kind = .semicolon ∧ ts = [t]
  | .statements close, body =>
    Stmt.EachUnbroken inside body ts ∧
    ∀ t us, ts = t :: us → t.kind = .semicolon ∨ (t.kind ≠ close ∧ t.kind ≠ .eof)
  | .blockBody, body =>
    ∃ o us k, ts = o :: (us ++ [k]) ∧ o.kind = .openCurly ∧ k.kind = .closeCurly ∧
      Stmt.EachUnbroken false body us

/-- A token before which no line break ends an expression may go on with it. -/
theorem goesOn_of_breaks {c : Surroundings} {t : Token} (h : breaks c [t] = false) :
    GoesOn c.grouped t := by
  rw [breaks, isOnNewLine_cons, Bool.and_eq_false_iff, Bool.not_eq_false'] at h
  exact h.symm

/-- A semicolon before statements makes their first run longer. -/
theorem Stmt.EachUnbroken.semicolon {inside : Bool} {t : Token} {body : List (Stmt Unit)}
    {ts : List Token} (h : Stmt.EachUnbroken inside body ts) (ht : t.kind = .semicolon) :
    Stmt.EachUnbroken inside body (t :: ts) := by
  cases h with
  | nil run => exact .nil (by simpa [Semicolons, ht] using run)
  | @cons _ run s us ss vs semicolons first setOff rest =>
    have hrun : Semicolons (t :: run) := by simpa [Semicolons, ht] using semicolons
    exact .cons hrun first setOff rest

theorem Stmt.EachUnbroken.terminated {inside : Bool} {close : TokenKind} {s : Stmt Unit}
    {body : List (Stmt Unit)} {ts us vs r : List Token} (hs : Stmt.Unbroken inside s ts)
    (hend : (us = [] ∧ endsStatement close (vs ++ r) = true) ∨
      ∃ t, t.kind = .semicolon ∧ us = [t])
    (hbody : Stmt.EachUnbroken inside body vs)
    (hrest : ∀ t ws, vs = t :: ws → t.kind = .semicolon ∨ (t.kind ≠ close ∧ t.kind ≠ .eof)) :
    Stmt.EachUnbroken inside (s :: body) (ts ++ (us ++ vs)) := by
  have hsetOff := setOff_of_terminator hend hrest
  have hbody' : Stmt.EachUnbroken inside body (us ++ vs) := by
    obtain ⟨rfl, -⟩ | ⟨t, ht, rfl⟩ := hend
    · exact hbody
    · exact hbody.semicolon ht
  have hrun : Semicolons [] := by simp [Semicolons]
  have hcons := Stmt.EachUnbroken.cons hrun hs hsetOff hbody'
  rwa [List.nil_append] at hcons

/-- The leaves of a phrase spell its tree without breaks. The induction is on the derivation; in its
surroundings stands whether line breaks mean nothing, and the cases of the delimiters show that this
is what the tree says. -/
theorem Derives.unbroken {elseRequired : Bool} {p : Phrase} {c : Surroundings} {w : List Leaf}
    {v : p.Tree Unit} {r : List Token} (h : Derives elseRequired p c w v r) :
    p.Unbroken c.grouped (words w) r v := by
  induction h with
  | number kind value => exact .token (.number kind value)
  | string kind => exact .token (.string kind)
  | char kind value => exact .token (.char kind value)
  | boolean value word => exact .token (.boolean value word)
  | label plain => exact .token (.label (namesLabel_of_plainLabel plain))
  | grouping opening inner ih =>
    obtain ⟨us, k, hwords, hk, helements⟩ := ih
    rw [words_cons, hwords]
    cases helements with
    | last element => exact .grouping opening element hk
  | tuple opening inner single ih =>
    obtain ⟨us, k, hwords, hk, helements⟩ := ih
    rw [words_cons, hwords]
    exact .tuple opening helements hk
  | array opening inner ih =>
    obtain ⟨us, k, hwords, hk, helements⟩ := ih
    rw [words_cons, hwords]
    exact .array opening helements hk
  | set word plain opening inner ih =>
    obtain ⟨us, k, hwords, hk, helements⟩ := ih
    rw [words_cons, words_cons, hwords]
    exact .set word opening helements hk
  | mapping word plain opening inner ih =>
    obtain ⟨us, k, hwords, hk, helements⟩ := ih
    rw [words_cons, words_cons, hwords]
    exact .mapping word opening helements hk
  | object opening inner ih =>
    obtain ⟨us, k, hwords, hk, helements⟩ := ih
    rw [words_cons, hwords]
    exact .object opening helements hk
  | @function c k o name wp wt wb ps comma type body r word named opening parameters returnType
      inner ihp iht ihb =>
    obtain ⟨us, k, hwords, hk, helements⟩ := ihp
    have hname : words (name.toList.map c.leaf) = name.toList := by
      simp [words, Function.comp_def]
    have hfunction := Expr.Unbroken.function word named opening helements hk iht ihb
    simpa [Phrase.Unbroken, Surroundings.typing, hname, hwords] using hfunction
  | arrowBody arrow value ih => exact .arrow arrow ih
  | statementBody inner ih =>
    obtain ⟨o, us, k, hwords, ho, hk, hbody⟩ := ih
    rw [hwords]
    exact .block ho hbody hk
  | block kind word plain inner ih =>
    obtain ⟨o, us, k, hwords, ho, hk, hbody⟩ := ih
    rw [words_cons, hwords]
    exact .block kind word ho hbody hk
  | @blockBody c o k w body r opening inner closing ih =>
    exact ⟨o, words w, k, by simp, opening, closing, ih.1⟩
  | conditionalValue inner ih => exact ih
  | conditional word condition separator thenBranch elseBranch ihc ihs iht ihe =>
    simpa [Phrase.Unbroken] using Expr.Unbroken.conditional word ihc ihs iht ihe
  | @thenPresent c t r word => exact .inr ⟨t, word, rfl⟩
  | thenAbsent absent => exact .inl rfl
  | elsePresent word branch ih => exact .present word ih
  | elseAbsent absent allowed => exact .absent
  | typePresent colon type ih => exact .present colon ih
  | typeAbsent absent => exact .absent
  | @declaredTypePresent c w e r type ih => exact .inr ⟨e, rfl, ih⟩
  | declaredTypeAbsent absent => exact .inl ⟨rfl, rfl⟩
  | declaration named colon declaredType assignment value iht ihv =>
    obtain ⟨rfl, hwords⟩ | ⟨type, rfl, htype⟩ := iht
    · simpa [Phrase.Unbroken, hwords] using Expr.Unbroken.declaration named colon assignment ihv
    · simpa [Phrase.Unbroken] using
        Expr.Unbroken.typedDeclaration named colon htype assignment ihv
  | update named updater value ih => exact .update named updater ih
  | chainEnd stop =>
    intro us hus
    simpa using hus
  | call sameLine opening arguments more iha ihm =>
    intro us hus
    obtain ⟨vs, k, hwords, hk, helements⟩ := iha
    have hcall := ihm _ (.call hus (goesOn_of_breaks sameLine) opening helements hk)
    simpa [hwords] using hcall
  | @member c base o n v e r sameLine point field more ih =>
    intro us hus
    obtain ⟨hnamed, hline⟩ : n.kind = .identifier ∧ n.newlineBefore = false := by
      simpa using (Bool.and_eq_true_iff.mp field).1
    have hmember := ih _ (.member hus (goesOn_of_breaks sameLine) point hnamed hline)
    simpa using hmember
  | suffix sameLine symbol noField more ih =>
    intro us hus
    have hsuffix := ih _ (.suffix hus (goesOn_of_breaks sameLine) symbol)
    simpa using hsuffix
  | operatorsEnd stop =>
    intro us hus
    simpa using hus
  | binary sameLine symbol tighter operand more iho ihm =>
    intro us hus
    have hbinary := ihm _ (.binary hus (goesOn_of_breaks sameLine) symbol iho)
    simpa using hbinary
  | expr head chain operators ihh ihc iho =>
    simpa [Phrase.Unbroken] using iho _ (ihc _ ihh)
  | declared inner ih => exact ih
  | updated inner ih => exact ih
  | chosen noLabel inner ih => exact ih
  | plain noLabel noConditional inner ih => exact ih
  | element inner ih => exact ih
  | entry inner colon valueInner ihk ihv =>
    simpa [Phrase.Unbroken, Slot.Unbroken] using Entry.Unbroken.intro ihk colon ihv
  | field named colon inner ih => exact Field.Unbroken.intro named colon ih
  | parameter named inner ih => exact Parameter.Unbroken.intro named ih
  | noElement stop => simp [Phrase.Unbroken]
  | lastElement go inner stop ih =>
    simp only [Phrase.Unbroken, if_neg (List.cons_ne_nil _ _)]
    exact .last ih
  | @moreElements c slot close afterComma o v w x xs comma r go inner separator more ihx ihm =>
    simp only [Phrase.Unbroken] at ihx ihm ⊢
    rw [if_neg (List.cons_ne_nil x xs), words_append, words_cons, Surroundings.token_leaf]
    exact .more ihx separator ihm
  | @delimited c slot close k w es r inner closing ih =>
    obtain ⟨xs, trailing⟩ := es
    exact ⟨words w, k, by simp, closing, .of_opening ih⟩
  | typeDefinition word named sameLine assignment definition ih =>
    exact .typeDefinition word named assignment ih
  | expression noType inner ih => exact .expression ih
  | @semicolon c close t r kind => exact .inr ⟨t, kind, rfl⟩
  | noSemicolon stop => exact .inl ⟨rfl, stop⟩
  | emptyStatement kind more ih =>
    refine ⟨ih.1.semicolon kind, fun t us htokens => ?_⟩
    cases htokens
    exact .inl kind
  | noStatement stop noSemicolon =>
    exact ⟨.nil (by simp [Semicolons]), fun t us h => absurd h.symm (List.cons_ne_nil t us)⟩
  | @statement c close u v w s body r go more content terminator rest ihc iht ihr =>
    rw [words_append, words_append]
    refine ⟨.terminated ihc iht ihr.1 ihr.2, fun t us htokens => .inr ?_⟩
    rw [← List.append_assoc (words v), ← List.append_assoc, htokens] at go more
    exact ⟨go, more⟩

/-- No expression of a source goes on over a line break that means something: the tokens of the
source spell the module that is parsed from it, and every operator, parenthesis of a call, point and
suffix stands on the line of the token before it or between delimiters inside which line breaks mean
nothing. -/
theorem unbroken_of_parse {source : String} {settings : Settings} {m : Module}
    (h : parse source settings = .ok m) :
    ∃ tokens stop, tokenize source settings.file = .ok (tokens ++ [stop]) ∧
      stop.kind = .eof ∧ Stmt.EachUnbroken false m.bare tokens := by
  obtain ⟨w, stop, hstream, hderives⟩ := derives_of_parse h
  have hproper := TokenStream.proper_ofScanner settings.file (Scanner.ofSource source)
  change (TokenStream.ofSource source settings.file).Proper at hproper
  rw [hstream] at hproper
  refine ⟨words w, stop, ?_, hproper.ending stop rfl, hderives.unbroken.1⟩
  rw [tokenize, hstream]
  rfl

/-- An operator on a new line between parentheses, and a statement on a new line in a block between
them. -/
theorem unbroken_of_parse_block :
    ∃ m, parse "f(a\n+ do \x7b p\n(q) \x7d\n.b)" {} = .ok m ∧
      ∃ tokens stop, tokenize "f(a\n+ do \x7b p\n(q) \x7d\n.b)" "shell" =
          .ok (tokens ++ [stop]) ∧
        stop.kind = .eof ∧ Stmt.EachUnbroken false m.bare tokens := by
  have hok : (parse "f(a\n+ do \x7b p\n(q) \x7d\n.b)" {}).isOk := by decide +kernel
  cases hparse : parse "f(a\n+ do \x7b p\n(q) \x7d\n.b)" {} with
  | error failure =>
    rw [hparse] at hok
    cases hok
  | ok m => exact ⟨m, rfl, unbroken_of_parse hparse⟩

end SurfaceGrammar

import SurfaceGrammar.Proofs.Grammar.Completeness
import SurfaceGrammar.Proofs.Grammar.Transfer
import SurfaceGrammar.Proofs.Token.Pieces

/-!
# Parsing a printed text

A text that a printer puts together from pieces is parsed if its lexemes are recognised and its
tokens, at no place in particular, are derived.

* `IsIdentifier`: the texts that name something.
* `Piece.word`, `Piece.mark`: the pieces of words, operators and punctuation marks.
* `Piece.parse_of_derives`: a printed text is parsed.
-/

namespace SurfaceGrammar

/-- A text that names something: a name that is no keyword. -/
structure IsIdentifier (text : String) : Prop where
  name : Lexeme.IsName text
  plain : Keyword.ofSpelling? text = none

namespace Piece

/-! ## Pieces of each kind -/

/-- The piece of a name. -/
def name (text : String) : Piece := lexeme (.name text)

/-- The piece of a word with a special meaning. -/
def word (keyword : Keyword) : Piece := name keyword.spelling

/-- The piece of an operator or a punctuation mark. -/
def mark (kind : TokenKind) : Piece := lexeme (.mark kind)

section Simp

variable (text : String) (keyword : Keyword) (kind : TokenKind) (ps : List Piece)

@[simp] theorem chars_name : chars (name text :: ps) = text.toList ++ chars ps := rfl

@[simp] theorem chars_mark : chars (mark kind :: ps) = (Lexeme.mark kind).text ++ chars ps := rfl

@[simp] theorem tokens_name : tokens (name text :: ps) = (Lexeme.name text).token :: tokens ps :=
  rfl

@[simp] theorem tokens_word :
    tokens (word keyword :: ps) = (Lexeme.name keyword.spelling).token :: tokens ps := rfl

@[simp] theorem tokens_mark : tokens (mark kind :: ps) = (Lexeme.mark kind).token :: tokens ps :=
  rfl

@[simp] theorem kind_name : (Lexeme.name text).token.kind = .identifier := rfl

@[simp] theorem value_name : (Lexeme.name text).token.value = text := rfl

@[simp] theorem kind_mark : (Lexeme.mark kind).token.kind = kind := rfl

@[simp] theorem newlineBefore_token (l : Lexeme) : l.token.newlineBefore = false := rfl

theorem keyword?_name : (Lexeme.name text).token.keyword? = Keyword.ofSpelling? text := rfl

@[simp] theorem keyword?_word :
    (Lexeme.name keyword.spelling).token.keyword? = some keyword :=
  Keyword.ofSpelling?_spelling keyword

@[simp] theorem keyword?_mark (h : kind ≠ .identifier) :
    (Lexeme.mark kind).token.keyword? = none :=
  Token.keyword?_eq_none h

end Simp

end Piece

/-! ## Recognising the pieces -/

/-- Whether a minus after the word is an operator. -/
def Keyword.endsValue : Keyword → Bool
  | .if | .then | .else => Bool.false
  | _ => Bool.true

theorem Keyword.endsValue_name (keyword : Keyword) :
    (Lexeme.name keyword.spelling).token.endsValue = keyword.endsValue := by
  cases keyword <;> decide

namespace Piece

namespace Recognised

variable {afterValue : Bool} {text : String} {keyword : Keyword} {kind : TokenKind}
  {ps : List Piece}

theorem of_name (h : IsIdentifier text) (htail : Lexeme.endsWord (chars ps) = true)
    (tail : Recognised true ps) : Recognised afterValue (name text :: ps) := by
  refine .lexeme (Lexeme.stands_name afterValue h.name htail) ?_
  have hends : (Lexeme.name text).token.endsValue = true := by
    simp [Token.endsValue, Token.isKeyword, keyword?_name, h.plain]
  rw [hends]
  exact tail

/-- A word in front of a space. -/
theorem of_word (tail : Recognised keyword.endsValue ps) :
    Recognised afterValue (word keyword :: .space :: ps) := by
  refine .lexeme (Lexeme.stands_name afterValue (Lexeme.isName_spelling keyword) rfl) (.space ?_)
  rwa [Keyword.endsValue_name]

/-- A mark that no other mark begins with. -/
theorem of_closed (h : Lexeme.isClosed kind = true)
    (tail : Recognised (Lexeme.mark kind).token.endsValue ps) :
    Recognised afterValue (mark kind :: ps) :=
  .lexeme (Lexeme.stands_closed afterValue _ h) tail

/-- A mark in front of a space. -/
theorem of_mark (h : kind ∈ symbols.map Prod.snd)
    (tail : Recognised (Lexeme.mark kind).token.endsValue ps) :
    Recognised afterValue (mark kind :: .space :: ps) :=
  .lexeme (Lexeme.stands_mark afterValue _ h) (.space tail)

end Recognised

/-- Pieces that are recognised where no value stands before them, if neither a name nor a number
goes on after them. A minus after them is an operator. -/
def Solid (p : List Piece) : Prop :=
  ∀ ps, Lexeme.endsWord (chars ps) = true → Recognised true ps → Recognised false (p ++ ps)

/-- Pieces in parentheses. -/
def parens (p : List Piece) : List Piece :=
  mark .openParen :: (p ++ [mark .closeParen])

theorem Solid.recognised {p : List Piece} (h : Solid p) : Recognised false p := by
  have hnil : Recognised false (p ++ []) := h [] rfl .nil
  rwa [List.append_nil] at hnil

theorem Solid.parens {p : List Piece} (h : Solid p) : Solid (parens p) := by
  intro ps _ tail
  have hclosed : Recognised true (mark .closeParen :: ps) := .of_closed rfl tail
  have hopen : Recognised false (mark .openParen :: (p ++ mark .closeParen :: ps)) :=
    .of_closed rfl (h _ rfl hclosed)
  simpa [Piece.parens] using hopen

/-- What closes a list of elements. -/
def IsCloser (kind : TokenKind) : Prop :=
  kind = .closeParen ∨ kind = .closeBracket ∨ kind = .closeCurly

/-- Pieces with commas between them, and one after the last if it is wanted. -/
def commas (trailing : Bool) : List (List Piece) → List Piece
  | [] => []
  | [p] => if trailing then p ++ [mark .comma] else p
  | p :: q :: rest => p ++ mark .comma :: space :: commas trailing (q :: rest)

/-- Pieces with commas between them are recognised in front of what closes them. -/
theorem recognised_commas {close : TokenKind} (hclose : IsCloser close) (trailing : Bool)
    {qs : List Piece} (tail : Recognised true qs) : ∀ {ps : List (List Piece)},
      (∀ p ∈ ps, Solid p) → Recognised false (commas trailing ps ++ mark close :: qs) := by
  have hclosed : ∀ afterValue, Recognised afterValue (mark close :: qs) := by
    intro afterValue
    obtain rfl | rfl | rfl := hclose <;> exact .of_closed rfl tail
  have hword : Lexeme.endsWord (chars (mark close :: qs)) = true := by
    obtain rfl | rfl | rfl := hclose <;> rfl
  intro ps
  induction ps with
  | nil => exact fun _ => hclosed false
  | cons p ps ih =>
    intro hsolid
    have hp : Solid p := hsolid p List.mem_cons_self
    have hps : ∀ q ∈ ps, Solid q := fun q hq => hsolid q (List.mem_cons_of_mem p hq)
    cases ps with
    | nil =>
      cases trailing with
      | false => exact hp _ hword (hclosed true)
      | true =>
        have h : Recognised false (p ++ mark .comma :: mark close :: qs) :=
          hp _ rfl (.of_closed rfl (hclosed false))
        simpa [commas] using h
    | cons q rest =>
      have h : Recognised false
          (p ++ mark .comma :: space :: (commas trailing (q :: rest) ++ mark close :: qs)) :=
        hp _ rfl (.of_closed rfl (.space (ih hps)))
      simpa [commas] using h

end Piece

/-! ## Operators -/

/-- The kind of the token of the operator. -/
def BinaryOperator.kind : BinaryOperator → TokenKind
  | equals => .equals
  | notEquals => .notEquals
  | less => .less
  | greater => .greater
  | lessEquals => .lessEquals
  | greaterEquals => .greaterEquals
  | subtype => .subtype
  | plus => .plus
  | minus => .dash
  | and => .ampersand
  | or => .pipe
  | multiply => .star
  | divide => .slash
  | modulo => .percent
  | power => .caret

/-- The kind of the token of the operator. -/
def Updater.kind : Updater → TokenKind
  | assign => .leftArrow
  | add => .plusEquals
  | subtract => .minusEquals
  | multiply => .starEquals
  | divide => .slashEquals
  | modulo => .percentEquals
  | power => .caretEquals

/-- The kind of the token of the operator. -/
def SuffixOperator.kind : SuffixOperator → TokenKind
  | dot => .dot
  | dollar => .dollar
  | hash => .hash
  | question => .question

namespace BinaryOperator

variable (operator : BinaryOperator)

@[simp] theorem ofKind?_kind : ofKind? operator.kind = some operator := by cases operator <;> rfl

theorem value_mark : (Lexeme.mark operator.kind).value = operator.symbol := by
  cases operator <;> rfl

theorem kind_mem : operator.kind ∈ symbols.map Prod.snd := by cases operator <;> decide

theorem endsValue_mark : (Lexeme.mark operator.kind).token.endsValue = false := by
  cases operator <;> rfl

/-- Every operator holds more tightly than nothing at all. -/
theorem not_level_le_default : ¬operator.level ≤ .default := by cases operator <;> decide

end BinaryOperator

namespace Updater

variable (operator : Updater)

@[simp] theorem ofKind?_kind : ofKind? operator.kind = some operator := by cases operator <;> rfl

theorem value_mark : (Lexeme.mark operator.kind).value = operator.symbol := by
  cases operator <;> rfl

theorem kind_mem : operator.kind ∈ symbols.map Prod.snd := by cases operator <;> decide

theorem endsValue_mark : (Lexeme.mark operator.kind).token.endsValue = false := by
  cases operator <;> rfl

end Updater

namespace SuffixOperator

variable (operator : SuffixOperator)

@[simp] theorem ofKind?_kind : ofKind? operator.kind = some operator := by cases operator <;> rfl

theorem value_mark : (Lexeme.mark operator.kind).value = operator.symbol := by
  cases operator <;> rfl

theorem isClosed_kind : Lexeme.isClosed operator.kind = true := by cases operator <;> rfl

theorem endsValue_mark : (Lexeme.mark operator.kind).token.endsValue = true := by
  cases operator <;> rfl

/-- No name and no number goes on with a suffix. -/
theorem endsWord_mark {tail : List Char} (h : Lexeme.endsWord tail = true) :
    Lexeme.endsWord ((Lexeme.mark operator.kind).text ++ tail) = true := by
  cases operator with
  | dot => exact Lexeme.endsWord_point h
  | dollar | hash | question => cases tail <;> rfl

end SuffixOperator

/-! ## Deriving the tokens of pieces -/

open Lookahead in
/-- What may follow an expression that goes on with nothing. -/
structure Stops (c : Surroundings) (ts : List Token) : Prop where
  chain : endsChain c ts = true
  operators : ∀ power, endsOperators c power ts = true

section Stops

open Lookahead

variable {c : Surroundings}

/-- Neither a call, a member or a suffix nor an operator begins with a token of the kind. -/
def TokenKind.isPause : TokenKind → Bool
  | .openParen | .dot | .dollar | .hash | .question => false
  | kind => (BinaryOperator.ofKind? kind).isNone

theorem stops_of_isPause {ts : List Token} (h : (kind ts).isPause = true) : Stops c ts := by
  have hchain : endsChain c ts = true := by
    unfold endsChain
    cases hk : kind ts <;> rw [hk] at h <;> first | exact Bool.or_true _ | cases h
  refine ⟨hchain, fun power => ?_⟩
  unfold endsOperators
  cases hk : kind ts <;> rw [hk] at h <;> first | exact Bool.or_true _ | cases h

theorem breaks_token (l : Lexeme) (ts : List Token) : breaks c (l.token :: ts) = false := by
  simp [breaks]

/-- Neither a call, a member nor a suffix begins with the operator. -/
theorem endsChain_operator (operator : BinaryOperator) (ts : List Token) :
    endsChain c ((Lexeme.mark operator.kind).token :: ts) = true := by
  cases operator <;> simp [endsChain, BinaryOperator.kind]

theorem isField_of_kind {ts : List Token} (h : kind ts ≠ .identifier) : isField ts = false := by
  cases ts with
  | nil => rfl
  | cons t ts =>
    have hkind : t.kind ≠ .identifier := h
    simp [Parse.isField, hkind]

theorem isKeyword_of_kind {keyword : Keyword} {ts : List Token} (h : kind ts ≠ .identifier) :
    isKeyword keyword ts = false := by
  cases ts with
  | nil => rfl
  | cons t ts => simp [Token.isKeyword, Token.keyword?_eq_none (t := t) h]

end Stops

/-- The tokens of pieces make up a phrase. -/
def Yields (elseRequired : Bool) (p : Phrase) (c : Surroundings) (ps : List Piece)
    (v : p.Tree Unit) (r : List Token) : Prop :=
  ∃ w, words w = Piece.tokens ps ∧ Derives elseRequired p c w v r

namespace Yields

open Piece Lookahead

variable {elseRequired : Bool} {c : Surroundings} {power : Power} {e first left : Expr Unit}
  {p q s : List Piece} {r : List Token}

/-- An expression from its parts. -/
theorem expr (hp : Yields elseRequired .primary c p first (tokens q ++ (tokens s ++ r)))
    (hq : Yields elseRequired (.chain first) c q left (tokens s ++ r))
    (hs : Yields elseRequired (.operators power left) c s e r) :
    Yields elseRequired (.expr power) c (p ++ (q ++ s)) e r := by
  obtain ⟨u, hu, hprimary⟩ := hp
  obtain ⟨v, hv, hchain⟩ := hq
  obtain ⟨w, hw, hoperators⟩ := hs
  rw [← hv, ← hw] at hprimary
  rw [← hw] at hchain
  exact ⟨u ++ (v ++ w), by simp [hu, hv, hw], .expr hprimary hchain hoperators⟩

theorem chainEnd (h : endsChain c r = true) : Yields elseRequired (.chain e) c [] e r :=
  ⟨[], rfl, .chainEnd h⟩

theorem operatorsEnd (h : endsOperators c power r = true) :
    Yields elseRequired (.operators power e) c [] e r :=
  ⟨[], rfl, .operatorsEnd h⟩

/-- An expression that goes on with nothing. -/
theorem expr_of_primary (hstops : Stops c r) (h : Yields elseRequired .primary c p e r) :
    Yields elseRequired (.expr power) c p e r := by
  have hexpr : Yields elseRequired (.expr power) c (p ++ ([] ++ [])) e r :=
    expr h (chainEnd hstops.chain) (operatorsEnd (hstops.operators power))
  simpa using hexpr

theorem element (h : Yields elseRequired (.expr .default) c p e r) :
    Yields elseRequired (.element .expr) c p e r := by
  obtain ⟨u, hu, hexpr⟩ := h
  exact ⟨u, hu, .element hexpr⟩

theorem binary {operator : BinaryOperator} {right : Expr Unit}
    (htighter : ¬operator.level ≤ power)
    (hq : Yields elseRequired (.expr operator.level) c q right (tokens s ++ r))
    (hs : Yields elseRequired (.operators power (.binary left operator right ())) c s e r) :
    Yields elseRequired (.operators power left) c
      (.space :: .mark operator.kind :: .space :: (q ++ s)) e r := by
  obtain ⟨v, hv, hoperand⟩ := hq
  obtain ⟨w, hw, hmore⟩ := hs
  rw [← hw] at hoperand
  exact ⟨c.leaf (Lexeme.mark operator.kind).token :: (v ++ w), by simp [hv, hw],
    .binary (breaks_token _ _) operator.ofKind?_kind htighter hoperand hmore⟩

theorem member {field : String} (hfield : IsIdentifier field)
    (hq : Yields elseRequired (.chain (.member e field ())) c q left r) :
    Yields elseRequired (.chain e) c (.mark .dot :: .name field :: q) left r := by
  obtain ⟨v, hv, hmore⟩ := hq
  have hname : Parse.isField (Lexeme.name field).token = true := by
    simp [Parse.isField, Token.isKeyword, keyword?_name, hfield.plain]
  exact ⟨c.leaf (Lexeme.mark .dot).token :: c.leaf (Lexeme.name field).token :: v, by simp [hv],
    .member (breaks_token _ _) rfl hname hmore⟩

theorem suffix {operator : SuffixOperator} (hfield : isField (tokens q ++ r) = false)
    (hq : Yields elseRequired (.chain (.suffix e operator ())) c q left r) :
    Yields elseRequired (.chain e) c (.mark operator.kind :: q) left r := by
  obtain ⟨v, hv, hmore⟩ := hq
  rw [← hv] at hfield
  exact ⟨c.leaf (Lexeme.mark operator.kind).token :: v, by simp [hv],
    .suffix (breaks_token _ _) operator.ofKind?_kind (fun _ => hfield) hmore⟩

/-- An expression begins with a token of a kind with which expressions begin. -/
theorem kind_mem {ph : Phrase} {v : ph.Tree Unit} (h : Yields elseRequired ph c p v r)
    (hph : ph.startsLikeExpr = true) : kind (tokens p ++ r) ∈ expressionStart := by
  obtain ⟨u, hu, hderives⟩ := h
  rw [← hu]
  exact hderives.kind_mem hph

end Yields

/-! ## Lists of elements -/

/-- What comes after an element of a list. -/
def EndsElement (ts : List Token) : Prop :=
  Lookahead.kind ts = .comma ∨ Piece.IsCloser (Lookahead.kind ts)

theorem EndsElement.stops {c : Surroundings} {ts : List Token} (h : EndsElement ts) :
    Stops c ts := by
  apply stops_of_isPause
  obtain h | h | h | h := h <;> rw [h] <;> rfl

theorem EndsElement.kind_ne_identifier {ts : List Token} (h : EndsElement ts) :
    Lookahead.kind ts ≠ .identifier := by
  obtain h | h | h | h := h <;> rw [h] <;> decide

theorem EndsElement.kind_ne_colon {ts : List Token} (h : EndsElement ts) :
    Lookahead.kind ts ≠ .colon := by
  obtain h | h | h | h := h <;> rw [h] <;> decide

theorem EndsElement.isField {ts : List Token} (h : EndsElement ts) :
    Lookahead.isField ts = false :=
  isField_of_kind h.kind_ne_identifier

/-- Pieces with commas between them and the elements that their tokens make up. -/
inductive Elements (elseRequired : Bool) (slot : Slot) :
    List (slot.Tree Unit) → List (List Piece) → Prop
  | nil : Elements elseRequired slot [] []
  | cons {x : slot.Tree Unit} {xs : List (slot.Tree Unit)} {p : List Piece}
      {ps : List (List Piece)}
      (head : ∀ r, EndsElement r → Yields elseRequired (.element slot) .inside p x r)
      (tail : Elements elseRequired slot xs ps) : Elements elseRequired slot (x :: xs) (p :: ps)

namespace Elements

open Piece Lookahead

variable {elseRequired : Bool} {slot : Slot} {xs : List (slot.Tree Unit)}
  {ps : List (List Piece)} {close : TokenKind}

theorem kind_ne_close {x : slot.Tree Unit} {p : List Piece} {r : List Token}
    (hclose : IsCloser close) (h : Yields elseRequired (.element slot) .inside p x r) :
    kind (tokens p ++ r) ≠ close := by
  intro hkind
  have hmem := h.kind_mem rfl
  rw [hkind] at hmem
  obtain rfl | rfl | rfl := hclose <;> exact absurd hmem (by decide)

/-- The elements up to what closes them. The induction is on the elements. -/
theorem yields (h : Elements elseRequired slot xs ps) (hclose : IsCloser close)
    (trailing : Bool) (r : List Token) : ∀ afterComma, ∃ comma,
      (xs ≠ [] → comma = trailing) ∧
      Yields elseRequired (.elements slot close afterComma) .inside (commas trailing ps)
        (xs, comma) ((Lexeme.mark close).token :: r) := by
  induction h with
  | nil => exact fun afterComma => ⟨afterComma, absurd rfl, [], rfl, .noElement rfl⟩
  | @cons x xs p ps head tail ih =>
    intro afterComma
    cases tail with
    | nil =>
      cases trailing with
      | false =>
        have hx := head ((Lexeme.mark close).token :: r) (.inr hclose)
        have hgo := kind_ne_close hclose hx
        obtain ⟨u, hu, hderives⟩ := hx
        rw [← hu] at hgo
        refine ⟨false, fun _ => rfl, u, hu, .lastElement hgo hderives ?_⟩
        obtain rfl | rfl | rfl := hclose <;> exact nofun
      | true =>
        have hx := head ((Lexeme.mark .comma).token :: (Lexeme.mark close).token :: r) (.inl rfl)
        have hgo := kind_ne_close hclose hx
        obtain ⟨u, hu, hderives⟩ := hx
        rw [← hu] at hgo
        refine ⟨true, fun _ => rfl, u ++ [Surroundings.inside.leaf (Lexeme.mark .comma).token],
          ?_, ?_⟩
        · simp [commas, hu]
        · exact .moreElements hgo hderives rfl (.noElement rfl)
    | @cons y ys q qs headq tailq =>
      obtain ⟨comma, hcomma, v, hv, hmore⟩ := ih true
      have hx := head ((Lexeme.mark .comma).token :: (words v ++ (Lexeme.mark close).token :: r))
        (.inl rfl)
      have hgo := kind_ne_close hclose hx
      obtain ⟨u, hu, hderives⟩ := hx
      rw [← hu] at hgo
      refine ⟨comma, fun _ => hcomma nofun,
        u ++ Surroundings.inside.leaf (Lexeme.mark .comma).token :: v, ?_, ?_⟩
      · simp [commas, hu, hv]
      · exact .moreElements hgo hderives rfl hmore

/-- The elements with what closes them. -/
theorem delimited (h : Elements elseRequired slot xs ps) (hclose : IsCloser close)
    (trailing : Bool) (c : Surroundings) (r : List Token) : ∃ comma,
      (xs ≠ [] → comma = trailing) ∧ Yields elseRequired (.delimited slot close) c
        (commas trailing ps ++ [mark close]) (xs, comma) r := by
  obtain ⟨comma, hcomma, u, hu, hlist⟩ := h.yields hclose trailing r false
  refine ⟨comma, hcomma, u ++ [Surroundings.inside.leaf (Lexeme.mark close).token], ?_, ?_⟩
  · simp [hu]
  · exact .delimited hlist rfl

end Elements

namespace Yields

open Piece

variable {elseRequired : Bool} {c : Surroundings} {e left : Expr Unit} {p q : List Piece}
  {r : List Token}

/-- A call, with its arguments between the parentheses. -/
theorem call {es : List (Expr Unit)} {ps : List (List Piece)}
    (hes : Elements elseRequired .expr es ps)
    (hq : Yields elseRequired (.chain (.call e es ())) c q left r) :
    Yields elseRequired (.chain e) c
      (.mark .openParen :: (commas false ps ++ [.mark .closeParen]) ++ q) left r := by
  obtain ⟨v, hv, hmore⟩ := hq
  obtain ⟨comma, -, u, hu, harguments⟩ := hes.delimited (.inl rfl) false c (words v ++ r)
  exact ⟨c.leaf (Lexeme.mark .openParen).token :: (u ++ v), by simp [hu, hv],
    .call (breaks_token _ _) rfl harguments hmore⟩

/-- An expression in parentheses. -/
theorem parens (h : ∀ r, EndsElement r → Yields elseRequired (.expr .default) .inside p e r)
    (r : List Token) : Yields elseRequired .primary c (parens p) e r := by
  have hlist : Elements elseRequired .expr [e] [p] := .cons (fun r hr => (h r hr).element) .nil
  obtain ⟨comma, hcomma, u, hu, hderives⟩ := hlist.delimited (.inl rfl) false c r
  obtain rfl := hcomma nofun
  exact ⟨c.leaf (Lexeme.mark .openParen).token :: u, by simp [Piece.parens, commas, hu],
    .grouping rfl hderives⟩

end Yields

/-! ## From the text to the tree -/

/-- The changes from the leaves of a phrase to tokens at other places. -/
theorem Change.exists_of_unplaced {ts : List Token} {w : List Leaf}
    (h : ts.map Token.unplaced = (words w).map Token.unplaced) : ∃ d : List Change,
      d.map before = w ∧ d.map new = ts ∧ ∀ x ∈ d, x.new.newlineBefore = x.old.newlineBefore := by
  induction ts generalizing w with
  | nil =>
    cases w with
    | nil => exact ⟨[], rfl, rfl, by simp⟩
    | cons l w => simp at h
  | cons t ts ih =>
    cases w with
    | nil => simp at h
    | cons l w =>
      rw [List.map_cons, words_cons, List.map_cons, List.cons.injEq] at h
      obtain ⟨ht, hts⟩ := h
      obtain ⟨d, rfl, rfl, hd⟩ := ih hts
      have hline : t.newlineBefore = l.token.newlineBefore := by
        simpa using congrArg Token.newlineBefore ht
      let x : Change :=
        { old := l.token
          new := t
          grouped := l.grouped
          kind := by simpa using congrArg Token.kind ht
          value := by simpa using congrArg Token.value ht
          line := fun _ => hline }
      refine ⟨x :: d, rfl, rfl, fun y hy => ?_⟩
      obtain rfl | hy := List.mem_cons.mp hy
      · exact hline
      · exact hd y hy

theorem Change.isField {x : Change} (h : x.new.newlineBefore = x.old.newlineBefore) :
    Parse.isField x.new = Parse.isField x.old := by
  simp only [Parse.isField, x.kind, x.isKeyword, h]

/-- The same statements are made up of the same tokens at other places. -/
theorem Derives.of_unplaced {elseRequired : Bool} {ts : List Token} {w : List Leaf}
    {body : List (Stmt Unit)} (h : Derives elseRequired (.statements .eof) .outside w body [])
    (hts : ts.map Token.unplaced = (words w).map Token.unplaced) :
    ∃ v, words v = ts ∧ Derives elseRequired (.statements .eof) .outside v body [] := by
  obtain ⟨d, rfl, rfl, hd⟩ := Change.exists_of_unplaced hts
  have hpoints : Change.Points (d ++ []) := by
    intro pre x y post he _
    rw [List.append_nil] at he
    exact Change.isField (hd y (by simp [he]))
  exact ⟨d.map Change.after, Change.words_map_after d,
    h.transfer rfl List.map_nil hpoints .nil fun _ => rfl⟩

/-- A text that is put together from pieces is parsed if its lexemes are recognised and its tokens
are derived. -/
theorem Piece.parse_of_derives {ps : List Piece} {settings : Settings} {w : List Leaf}
    {body : List (Stmt Unit)} (hlexemes : Recognised false ps) (hwords : words w = tokens ps)
    (h : Derives settings.elseRequired (.statements .eof) .outside w body []) :
    ∃ m, parse (source ps) settings = .ok m ∧ m.bare = body := by
  obtain ⟨ts, stop, hstream, hts⟩ := ofSource_of_recognised settings.file hlexemes
  have hunplaced : ts.map Token.unplaced = (words w).map Token.unplaced := by
    rw [hwords, ← hts, List.map_map, Token.unplaced_comp_unplaced]
  obtain ⟨v, rfl, hderives⟩ := h.of_unplaced hunplaced
  exact SurfaceGrammar.parse_of_derives hstream hderives

end SurfaceGrammar

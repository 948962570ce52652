import SurfaceGrammar.Proofs.Grammar.Expressions
import SurfaceGrammar.Proofs.Token.Inline

/-!
# Elements of lists

A list between delimiters holds texts with commas between them. Each of them is read where it stands
as it is read alone: the comma behind it, or the closing delimiter, ends it as the end of a source
does, and what it stands for is later by the bytes before it.

* `Item`: texts on one line that are read as one expression.
* `Element`: texts that a production reads as an element, with their tokens and what they stand for
  at each place.
* `Item.element`, `Pair.element`, `Labelled.element`: items, entries of a map, fields of an object.
* `Element.ofScanner_listed`: the tokens of a list.
* `Element.consumes_delimited`: a list in front of its closing delimiter, with or without a comma
  behind the last element.
* `Element.rejects_delimited`: a list with a comma where an element is to come.
-/

namespace SurfaceGrammar

open Lookahead Spaced

/-! ## Items -/

/-- A source on one line that is read as one expression. -/
structure Item (settings : Settings) where
  source : String
  tree : Expr Span
  isExpr : IsExpr source settings tree
  inline : Inline source settings.file

namespace Item

variable {settings : Settings} (item : Item settings)

/-- The tokens of the item alone. -/
def tokens : List Token := (TokenStream.ofSource item.source settings.file).tokens

/-- The expression if the item stands at a place. -/
def treeAt (place : Nat) : Expr Span := item.tree.mapMark (Span.shift place)

/-- No conditional and no function begins in the item. -/
def IsPlain : Prop := ∀ t ∈ item.tokens, t.isKeyword .if = false ∧ t.isKeyword .fn = false

theorem exists_ofSource : ∃ stop, TokenStream.ofSource item.source settings.file =
    ⟨item.tokens, .ok stop⟩ ∧ kind item.tokens ∈ expressionStart := by
  obtain ⟨ts, stop, hstream, hstart⟩ := item.isExpr.exists_ofSource
  have htokens : item.tokens = ts := congrArg TokenStream.tokens hstream
  exact ⟨stop, by rw [htokens, hstream], htokens ▸ hstart⟩

theorem scans :
    Scans settings.file item.source fun place => item.tokens.map (Token.shift place) := by
  obtain ⟨stop, hstream, -⟩ := item.exists_ofSource
  exact .inline hstream item.inline

/-- An expression begins where the item does, at any place and whatever follows. -/
theorem begins (place : Nat) (r : List Token) :
    kind (item.tokens.map (Token.shift place) ++ r) ∈ expressionStart := by
  obtain ⟨-, -, hstart⟩ := item.exists_ofSource
  cases htokens : item.tokens with
  | nil =>
    rw [htokens] at hstart
    exact absurd hstart (by decide)
  | cons t ts =>
    rw [htokens] at hstart
    exact hstart

/-- An item is read in front of a token that no expression takes in. In front of a colon no
conditional and no function may begin in it. -/
theorem consumes {k : Token} (hends : k.kind ∈ TokenKind.enders)
    (hplain : k.kind = .colon → item.IsPlain) {levels : Nat} (hlevels : item.tokens.length ≤ levels)
    (place : Nat) (r : List Token) :
    Consumes (Parse.expr (descent .standard settings.elseRequired levels) .default) .inside
      (item.tokens.map (Token.shift place)) (k :: r) (· = item.treeAt place) := by
  obtain ⟨stop, hstream, -⟩ := item.exists_ofSource
  exact item.isExpr.consumes hstream
    (TokenStream.newlineBefore_of_inline hstream item.inline.line) hends hplain rfl place hlevels r

end Item

/-! ## Marks between texts -/

namespace Spaced

/-- A colon behind a space. -/
def colon : Spaced := ⟨[' '], .mark .colon⟩

/-- A comma. -/
def comma : Spaced := ⟨[], .mark .comma⟩

@[simp] theorem size_gap_comma : Utf8.size comma.gap = 0 := rfl

@[simp] theorem size_text_comma : Utf8.size comma.lexeme.text = 1 := rfl

theorem apart_colon (back : List Char) : colon.Apart (' ' :: back) where
  blank := blank_space
  stands afterValue := Lexeme.stands_mark afterValue back (by decide)
  apart := ⟨' ', _, rfl, by decide⟩

theorem apart_comma (back : List Char) : comma.Apart back where
  blank := nofun
  stands afterValue := Lexeme.stands_closed afterValue back rfl
  apart := ⟨',', _, rfl, by decide⟩

end Spaced

/-! ## Elements -/

/-- A text that a production reads as an element, wherever it stands between delimiters. -/
structure Element (settings : Settings) {β : Type} (production : Descent → Parse β) where
  text : String
  /-- The tokens if the text stands at a place. -/
  tokens : Nat → List Token
  /-- The element if the text stands at a place. -/
  value : Nat → β
  scans : Scans settings.file text tokens
  begins : ∀ (place : Nat) (r : List Token), kind (tokens place ++ r) ∈ expressionStart
  consumes : ∀ {levels place : Nat} {k : Token}, (tokens place).length ≤ levels →
    k.kind ∈ TokenKind.enders → k.kind ≠ .colon → ∀ r : List Token,
    Consumes (production (descent .standard settings.elseRequired (levels + 1))) .inside
      (tokens place) (k :: r) (· = value place)

/-- An item, as an element. -/
def Item.element {settings : Settings} (item : Item settings) :
    Element settings fun down => down.expr .default where
  text := item.source
  tokens place := item.tokens.map (Token.shift place)
  value := item.treeAt
  scans := item.scans
  begins := item.begins
  consumes hlevels hends hcolon :=
    item.consumes hends (absurd · hcolon) (List.length_map (Token.shift _) ▸ hlevels) _

/-- A key and a value. No conditional and no function may begin in the key, as both go on with a
colon. -/
structure Pair (settings : Settings) where
  key : Item settings
  value : Item settings
  plain : key.IsPlain

namespace Pair

variable {settings : Settings} (pair : Pair settings)

/-- The key, a colon and the value. -/
def source : String := pair.key.source ++ " : " ++ pair.value.source

/-- Where the value stands if the key stands at a place. -/
def valuePlace (place : Nat) : Nat := place + pair.key.source.utf8ByteSize + 3

/-- The tokens of the key, of the colon and of the value. -/
def tokens (place : Nat) : List Token :=
  pair.key.tokens.map (Token.shift place) ++
    colon.tokenAt settings.file (place + pair.key.source.utf8ByteSize) ::
      pair.value.tokens.map (Token.shift (pair.valuePlace place))

/-- The entry if the key stands at a place. -/
def entryAt (place : Nat) : Entry Span :=
  let key := pair.key.treeAt place
  let value := pair.value.treeAt (pair.valuePlace place)
  ⟨key, value, key.mark.join value.mark⟩

theorem scans : Scans settings.file pair.source pair.tokens :=
  pair.key.scans.joined pair.value.scans apart_colon rfl rfl

theorem begins (place : Nat) (r : List Token) :
    kind (pair.tokens place ++ r) ∈ expressionStart := by
  rw [tokens, List.append_assoc]
  exact pair.key.begins place _

theorem consumes {levels place : Nat} {k : Token} (hlevels : (pair.tokens place).length ≤ levels)
    (hends : k.kind ∈ TokenKind.enders) (hcolon : k.kind ≠ .colon) (r : List Token) :
    Consumes (Parse.entry (descent .standard settings.elseRequired (levels + 1))) .inside
      (pair.tokens place) (k :: r) (· = pair.entryAt place) := by
  simp only [tokens, List.length_append, List.length_cons, List.length_map] at hlevels
  have hmark : (colon.tokenAt settings.file (place + pair.key.source.utf8ByteSize)).kind = .colon :=
    rfl
  have hkey := pair.key.consumes (by rw [hmark]; decide) (fun _ => pair.plain)
    (by omega : _ ≤ levels) place
  have hvalue := pair.value.consumes hends (absurd · hcolon) (by omega : _ ≤ levels)
    (pair.valuePlace place) r
  refine (Consumes.entry (hkey _) hmark hvalue).mono ?_
  rintro _ ⟨_, _, rfl, rfl, rfl⟩
  rfl

/-- A key and a value, as an entry of a map. -/
def element : Element settings Parse.entry where
  text := pair.source
  tokens := pair.tokens
  value := pair.entryAt
  scans := pair.scans
  begins := pair.begins
  consumes := pair.consumes

end Pair

/-- A label and a value. -/
structure Labelled (settings : Settings) where
  label : Identifier
  value : Item settings

namespace Labelled

variable {settings : Settings} (field : Labelled settings)

/-- The label, a colon and the value. -/
def source : String := field.label.text ++ " : " ++ field.value.source

/-- Where the value stands if the label stands at a place. -/
def valuePlace (place : Nat) : Nat := place + field.label.text.utf8ByteSize + 3

/-- The tokens of the label, of the colon and of the value. -/
def tokens (place : Nat) : List Token :=
  Spaced.tokenAt ⟨[], .name field.label.text⟩ settings.file place ::
    colon.tokenAt settings.file (place + field.label.text.utf8ByteSize) ::
      field.value.tokens.map (Token.shift (field.valuePlace place))

/-- The field if the label stands at a place. -/
def fieldAt (place : Nat) : Field Span :=
  let value := field.value.treeAt (field.valuePlace place)
  ⟨field.label.text, value, ⟨.ofOffset place settings.file, value.mark.stop⟩⟩

theorem scans : Scans settings.file field.source field.tokens :=
  (Scans.name settings.file field.label.valid.name).joined field.value.scans apart_colon rfl rfl

theorem begins (place : Nat) (r : List Token) :
    kind (field.tokens place ++ r) ∈ expressionStart :=
  show TokenKind.identifier ∈ expressionStart by decide

theorem consumes {levels place : Nat} {k : Token} (hlevels : (field.tokens place).length ≤ levels)
    (hends : k.kind ∈ TokenKind.enders) (hcolon : k.kind ≠ .colon) (r : List Token) :
    Consumes (Parse.field (descent .standard settings.elseRequired (levels + 1))) .inside
      (field.tokens place) (k :: r) (· = field.fieldAt place) := by
  simp only [tokens, List.length_cons, List.length_map] at hlevels
  have hvalue := field.value.consumes hends (absurd · hcolon) (by omega : _ ≤ levels)
    (field.valuePlace place) r
  refine (Consumes.field rfl rfl hvalue).mono ?_
  rintro _ ⟨_, rfl, rfl⟩
  rfl

/-- A label and a value, as a field of an object. -/
def element : Element settings Parse.field where
  text := field.source
  tokens := field.tokens
  value := field.fieldAt
  scans := field.scans
  begins := field.begins
  consumes := field.consumes

end Labelled

/-! ## Lists of elements -/

/-- The kinds of tokens with which a list of elements is closed. -/
def TokenKind.closings : List TokenKind := [.closeParen, .closeBracket, .closeCurly]

namespace Element

variable {settings : Settings} {β : Type} {production : Descent → Parse β}

/-- The elements with a comma and a space between them. -/
def listed (xs : List (Element settings production)) : String := ", ".intercalate (xs.map text)

/-- The tokens of the elements and of the commas between them. -/
def tokensOf : Nat → List (Element settings production) → List Token
  | _, [] => []
  | place, [x] => x.tokens place
  | place, x :: y :: xs =>
    x.tokens place ++ comma.tokenAt settings.file (place + x.text.utf8ByteSize) ::
      tokensOf (place + x.text.utf8ByteSize + 2) (y :: xs)

/-- The elements, of which the first one stands at a place. -/
def valuesOf : Nat → List (Element settings production) → List β
  | _, [] => []
  | place, x :: xs => x.value place :: valuesOf (place + x.text.utf8ByteSize + 2) xs

variable {x y : Element settings production} {xs : List (Element settings production)}
  {place levels bound : Nat} {close : TokenKind} {k separator : Token} {r : List Token}

theorem listed_cons_cons : listed (x :: y :: xs) = x.text ++ ", " ++ listed (y :: xs) := by
  simp [listed, String.intercalate_cons_cons]

theorem scans_listed (x : Element settings production) (xs : List (Element settings production)) :
    Scans settings.file (listed (x :: xs)) (tokensOf · (x :: xs)) := by
  induction xs generalizing x with
  | nil =>
    have hlisted : listed [x] = x.text := by simp [listed]
    rw [hlisted]
    exact x.scans
  | cons y xs ih =>
    rw [listed_cons_cons]
    exact x.scans.joined (ih y) (fun back => apart_comma _) rfl rfl

@[simp] theorem length_valuesOf (place : Nat) (xs : List (Element settings production)) :
    (valuesOf place xs).length = xs.length := by
  induction xs generalizing place with
  | nil => rfl
  | cons x xs ih => rw [valuesOf, List.length_cons, List.length_cons, ih]

/-- The tokens of elements, of lexemes behind them and of the text behind those. -/
theorem ofScanner_listed (xs : List (Element settings production)) {x : Spaced} {ys : List Spaced}
    {back : List Char} (hx : x.Apart (Spaced.chars ys ++ back)) (hys : Spaced.Written back ys)
    (place : Nat) :
    TokenStream.ofScanner settings.file
        ⟨(listed xs).toList ++ (Spaced.chars (x :: ys) ++ back), place, false, false⟩ =
      .behind (tokensOf place xs ++
          Spaced.tokensAt settings.file (place + (listed xs).utf8ByteSize) (x :: ys))
        (.ofScanner settings.file ⟨back, place + (listed xs).utf8ByteSize +
          Utf8.size (Spaced.chars (x :: ys)), false, Spaced.endsValue false (x :: ys)⟩) := by
  cases xs with
  | nil =>
    simpa [listed, tokensOf] using
      TokenStream.ofScanner_written settings.file (.cons hx.blank hx.stands hys) place false
  | cons z xs =>
    have hrest := TokenStream.ofScanner_written settings.file hys (place +
      (listed (z :: xs)).utf8ByteSize + Utf8.size x.gap + Utf8.size x.lexeme.text)
      x.lexeme.token.endsValue
    have hall := (scans_listed z xs place x _ hx).trans (congrArg (TokenStream.behind _) hrest)
    simpa [Spaced.tokensAt, Spaced.endsValue, Nat.add_assoc] using hall

theorem ne_closing {kind : TokenKind} (hstart : kind ∈ expressionStart)
    (hclose : close ∈ TokenKind.closings) : kind ≠ close := by
  rintro rfl
  revert kind
  decide

/-- An element in front of a comma. -/
theorem consumes_before_comma (hlevels : (x.tokens place).length ≤ levels)
    (hseparator : separator.kind = .comma) (r : List Token) :
    Consumes (production (descent .standard settings.elseRequired (levels + 1))) .inside
      (x.tokens place) (separator :: r) (· = x.value place) :=
  x.consumes hlevels (by rw [hseparator]; decide) (by rw [hseparator]; decide) r

/-- The elements are read in front of the closing delimiter, with or without a comma behind the last
one. The induction is on the elements behind the first one. -/
theorem consumes_elements (hk : k.kind ∈ TokenKind.closings) (trailing : Option Token)
    (htrailing : ∀ t ∈ trailing, t.kind = .comma) (afterComma : Bool)
    (hlevels : (tokensOf place (x :: xs)).length ≤ levels) (hbound : xs.length + 1 < bound) :
    Consumes (Parse.elements k.kind
        (production (descent .standard settings.elseRequired (levels + 1))) bound afterComma)
      .inside (tokensOf place (x :: xs) ++ trailing.toList) (k :: r)
      (· = (valuesOf place (x :: xs), trailing.isSome)) := by
  have hgo (us : List Token) : kind (x.tokens place ++ us) ≠ k.kind := ne_closing (x.begins _ _) hk
  induction xs generalizing x place bound afterComma with
  | nil =>
    obtain ⟨bound, rfl⟩ : ∃ n, bound = n + 2 := ⟨bound - 2, by omega⟩
    cases trailing with
    | none =>
      obtain ⟨hends, hcolon, hcomma⟩ : k.kind ∈ TokenKind.enders ∧ k.kind ≠ .colon ∧
          k.kind ≠ .comma := by
        generalize k.kind = kind at hk
        revert kind
        decide
      rw [Option.toList_none, List.append_nil]
      refine (Consumes.lastElement (hgo _) (x.consumes hlevels hends hcolon r) hcomma).mono ?_
      rintro _ ⟨_, rfl, rfl⟩
      rfl
    | some o =>
      have ho := htrailing o rfl
      refine (Consumes.moreElements afterComma (hgo _) (consumes_before_comma hlevels ho _) ho
        (.noElement rfl)).mono ?_
      rintro _ ⟨_, _, rfl, rfl, rfl⟩
      rfl
  | cons y xs ih =>
    obtain ⟨bound, rfl⟩ : ∃ n, bound = n + 1 := ⟨bound - 1, by omega⟩
    simp only [tokensOf, List.length_append, List.length_cons] at hlevels hbound
    have hrest : (tokensOf (place + x.text.utf8ByteSize + 2) (y :: xs)).length ≤ levels := by omega
    have hmore := ih true hrest (Nat.lt_of_succ_lt_succ hbound) fun us =>
      ne_closing (y.begins _ _) hk
    rw [tokensOf, List.append_assoc, List.cons_append]
    refine (Consumes.moreElements afterComma (hgo _) (consumes_before_comma (by omega) rfl _) rfl
      hmore).mono ?_
    rintro _ ⟨_, _, rfl, rfl, rfl⟩
    rfl

/-- Every element has a token of its own. -/
theorem length_le_tokensOf (place : Nat) (xs : List (Element settings production)) :
    xs.length ≤ (tokensOf place xs).length := by
  have hpos (x : Element settings production) (place : Nat) : 0 < (x.tokens place).length := by
    refine List.length_pos_of_ne_nil fun hnil => ?_
    have hstart := x.begins place []
    rw [hnil] at hstart
    exact absurd hstart (by decide)
  induction xs generalizing place with
  | nil => exact Nat.zero_le _
  | cons x xs ih =>
    cases xs with
    | nil => exact hpos x place
    | cons y xs =>
      have hrest := ih (place + x.text.utf8ByteSize + 2)
      have hfirst := hpos x place
      simp only [tokensOf, List.length_append, List.length_cons] at hrest ⊢
      omega

/-- Elements between delimiters, of which the opening one has been passed. -/
theorem consumes_delimited {c : Surroundings} (xs : List (Element settings production))
    (hclose : close ∈ TokenKind.closings) (hk : k.kind = close) {trailing : Option Token}
    (htrailing : ∀ t ∈ trailing, t.kind = .comma) (hsome : trailing.isSome = true → xs ≠ [])
    (hlevels : (tokensOf place xs).length ≤ levels) (r : List Token) :
    Consumes (Parse.delimited (levels + 1) close
        (production (descent .standard settings.elseRequired (levels + 1))))
      c (tokensOf place xs ++ (trailing.toList ++ [k])) r
      (· = ⟨valuesOf place xs, trailing.isSome, k⟩) := by
  subst hk
  rw [← List.append_assoc]
  suffices hinner : Consumes (Parse.elements k.kind
      (production (descent .standard settings.elseRequired (levels + 1))) (levels + 1) false)
      .inside (tokensOf place xs ++ trailing.toList) (k :: r)
      (· = (valuesOf place xs, trailing.isSome)) by
    refine (Consumes.delimited hinner rfl).mono ?_
    rintro ⟨elements, comma, closing⟩ ⟨hlist, rfl⟩
    obtain ⟨rfl, rfl⟩ := Prod.mk.inj hlist
    rfl
  cases xs with
  | nil =>
    cases trailing with
    | none => exact .noElement rfl
    | some t => exact absurd rfl (hsome rfl)
  | cons x xs =>
    exact consumes_elements hclose trailing htrailing false hlevels
      (Nat.lt_succ_of_le (Nat.le_trans (length_le_tokensOf place (x :: xs)) hlevels))

/-! ## Commas without an element before them -/

/-- Where no element begins behind a comma and the list is not closed either, the list fails. The
induction is on the elements behind the first one. -/
theorem rejects_elements {t : Token} {e : Error} (hclose : close ∈ TokenKind.closings)
    (hnone : Rejects (production (descent .standard settings.elseRequired (levels + 1))) .inside []
      (t :: r) e) (ht : t.kind ≠ close) (hseparator : separator.kind = .comma) (afterComma : Bool)
    (hlevels : (tokensOf place (x :: xs)).length ≤ levels) (hbound : xs.length + 1 < bound) :
    Rejects (Parse.elements close
        (production (descent .standard settings.elseRequired (levels + 1))) bound afterComma)
      .inside (tokensOf place (x :: xs) ++ [separator]) (t :: r) e := by
  have hgo (us : List Token) : kind (x.tokens place ++ us) ≠ close :=
    ne_closing (x.begins _ _) hclose
  induction xs generalizing x place bound afterComma with
  | nil =>
    obtain ⟨bound, rfl⟩ : ∃ n, bound = n + 2 := ⟨bound - 2, by omega⟩
    exact .moreElements afterComma (hgo _) (consumes_before_comma hlevels hseparator _) hseparator
      (.firstElement true ht hnone)
  | cons y xs ih =>
    obtain ⟨bound, rfl⟩ : ∃ n, bound = n + 1 := ⟨bound - 1, by omega⟩
    simp only [tokensOf, List.length_append, List.length_cons] at hlevels hbound
    have hrest : (tokensOf (place + x.text.utf8ByteSize + 2) (y :: xs)).length ≤ levels := by omega
    have hmore := ih true hrest (Nat.lt_of_succ_lt_succ hbound) fun us =>
      ne_closing (y.begins _ _) hclose
    rw [tokensOf, List.append_assoc, List.cons_append]
    exact .moreElements afterComma (hgo _) (consumes_before_comma (by omega) rfl _) rfl hmore

/-- A comma without an element before it fails, behind the opening delimiter or behind another
comma. -/
theorem rejects_delimited {c : Surroundings} {t : Token} {e : Error}
    (xs : List (Element settings production)) (hclose : close ∈ TokenKind.closings)
    {trailing : Option Token} (htrailing : ∀ t ∈ trailing, t.kind = .comma)
    (hsome : trailing.isSome = true ↔ xs ≠ []) (hlevels : (tokensOf place xs).length ≤ levels)
    (ht : t.kind = .comma)
    (hnone : Rejects (production (descent .standard settings.elseRequired (levels + 1))) .inside []
      (t :: r) e) :
    Rejects (Parse.delimited (levels + 1) close
        (production (descent .standard settings.elseRequired (levels + 1))))
      c (tokensOf place xs ++ trailing.toList) (t :: r) e := by
  have hne : t.kind ≠ close := by
    rw [ht]
    rintro rfl
    exact absurd hclose (by decide)
  refine .delimited ?_
  cases xs with
  | nil =>
    obtain rfl : trailing = none := by simpa using hsome
    exact .firstElement false hne hnone
  | cons x xs =>
    obtain ⟨separator, rfl⟩ : ∃ separator, trailing = some separator :=
      Option.isSome_iff_exists.mp (hsome.mpr (List.cons_ne_nil x xs))
    exact rejects_elements hclose hnone hne (htrailing separator rfl) false hlevels
      (Nat.lt_succ_of_le (Nat.le_trans (length_le_tokensOf place (x :: xs)) hlevels))

end Element

end SurfaceGrammar

import SurfaceGrammar.Proofs.Grammar.Items

/-!
# Elements between delimiters

Arrays, tuples, calls, sets, maps and objects are lists of elements between delimiters. In all of
them the elements are read as they are read alone, whatever they hold: an element ends where its
text ends, and nothing of the form shows in it but its place.

* `DelimitedForm`: the forms with their elements.
* `DelimitedForm.source`, `DelimitedForm.node`: the text of a form and what it stands for.
* `DelimitedForm.readsAs`: a form is read as one expression, with or without a comma behind the last
  element.
* `DelimitedForm.refused`: a comma without an element before it is refused.
* `DelimitedForm.reads_elements`: the elements of a form are those that were put into it.
-/

namespace SurfaceGrammar

open Lookahead Spaced

/-! ## Forms -/

/-- A form with elements between delimiters. -/
inductive DelimitedForm (settings : Settings) where
  | array (items : List (Item settings))
  | tuple (items : List (Item settings))
  | call (callee : Identifier) (items : List (Item settings))
  | set (items : List (Item settings))
  | mapping (pairs : List (Pair settings))
  | object (fields : List (Labelled settings))

/-- The span of a whole source. -/
def wholeSpan (source file : String) : Span :=
  ⟨.ofOffset 0 file, .ofOffset source.utf8ByteSize file⟩

/-- The number of elements of an expression with elements between delimiters. -/
def Expr.elementCount {α : Type} : Expr α → Nat
  | .sequence _ elements _ => elements.length
  | .call _ arguments _ => arguments.length
  | .mapping entries _ => entries.length
  | .object fields _ => fields.length
  | _ => 0

namespace DelimitedForm

variable {settings : Settings}

/-- The words and the marks before the elements. -/
def opening : DelimitedForm settings → List Spaced
  | array _ => [⟨[], .mark .openBracket⟩]
  | tuple _ => [⟨[], .mark .openParen⟩]
  | call callee _ => [⟨[], .name callee.text⟩, ⟨[], .mark .openParen⟩]
  | set _ => [⟨[], .name Keyword.set.spelling⟩, ⟨[' '], .mark .openCurly⟩]
  | mapping _ => [⟨[], .name Keyword.map.spelling⟩, ⟨[' '], .mark .openCurly⟩]
  | object _ => [⟨[], .mark .openCurly⟩]

/-- What stands before the elements. -/
def front : DelimitedForm settings → String
  | array _ => "["
  | tuple _ => "("
  | call callee _ => callee.text ++ "("
  | set _ => "set \x7b"
  | mapping _ => "map \x7b"
  | object _ => "\x7b"

/-- The mark behind the elements. -/
def closing : DelimitedForm settings → TokenKind
  | array _ => .closeBracket
  | tuple _ | call _ _ => .closeParen
  | set _ | mapping _ | object _ => .closeCurly

/-- What stands behind the elements. -/
def back : DelimitedForm settings → String
  | array _ => "]"
  | tuple _ | call _ _ => ")"
  | set _ | mapping _ | object _ => "\x7d"

/-- The texts of the elements. -/
def parts : DelimitedForm settings → List String
  | array items | tuple items | call _ items | set items => items.map Item.source
  | mapping pairs => pairs.map Pair.source
  | object fields => fields.map Labelled.source

/-- The form without its closing delimiter, with or without a comma behind the last element. -/
def upTo (form : DelimitedForm settings) (comma : Bool) : String :=
  form.front ++ ", ".intercalate form.parts ++ (if comma then "," else "")

/-- The form, with or without a comma behind the last element. -/
def source (form : DelimitedForm settings) (comma : Bool) : String := form.upTo comma ++ form.back

/-- The form up to the place where another element is to come. -/
def before (form : DelimitedForm settings) : String := form.upTo !form.parts.isEmpty

/-- The node of a form, with its span. -/
def node (form : DelimitedForm settings) (span : Span) : Expr Span :=
  let place := form.front.utf8ByteSize
  match form with
  | array items => .sequence .array (Element.valuesOf place (items.map Item.element)) span
  | tuple items => .sequence .tuple (Element.valuesOf place (items.map Item.element)) span
  | call callee items =>
    .call (.label callee.text ⟨.ofOffset 0 settings.file,
        .ofOffset callee.text.utf8ByteSize settings.file⟩)
      (Element.valuesOf place (items.map Item.element)) span
  | set items => .sequence .set (Element.valuesOf place (items.map Item.element)) span
  | mapping pairs => .mapping (Element.valuesOf place (pairs.map Pair.element)) span
  | object fields => .object (Element.valuesOf place (fields.map Labelled.element)) span

/-- What a form stands for. One item between parentheses without a comma is the item. -/
def tree (form : DelimitedForm settings) (comma : Bool) (span : Span) : Expr Span :=
  match form, comma with
  | tuple [item], false => item.treeAt 1
  | form, _ => form.node span

/-- The kinds of tokens with which an element of the form begins. -/
def expected : DelimitedForm settings → List TokenKind
  | object _ => [.identifier]
  | _ => expressionStart

/-- The tokens of the elements and of the commas between them. -/
def tokens (form : DelimitedForm settings) : List Token :=
  let place := form.front.utf8ByteSize
  match form with
  | array items | tuple items | call _ items | set items =>
    Element.tokensOf place (items.map Item.element)
  | mapping pairs => Element.tokensOf place (pairs.map Pair.element)
  | object fields => Element.tokensOf place (fields.map Labelled.element)

/-! ## The tokens of a form -/

variable {form : DelimitedForm settings}

theorem toList_front (form : DelimitedForm settings) : form.front.toList = chars form.opening := by
  cases form with
  | call callee items =>
    simp only [front, opening, chars_cons, chars_nil, String.toList_append, List.nil_append]
    rfl
  | _ =>
    simp only [front, opening]
    rfl

theorem written_opening (form : DelimitedForm settings) (back : List Char) :
    Written back form.opening := by
  have hmark (gap : List Char) {kind : TokenKind} (hgap : ∀ c ∈ gap, isWhitespace c = true)
      (hkind : Lexeme.isClosed kind = true) : Written back [⟨gap, .mark kind⟩] :=
    .cons hgap (fun afterValue => Lexeme.stands_closed afterValue _ hkind) .nil
  have hset (keyword : Keyword) : Written back [⟨[], .name keyword.spelling⟩,
      ⟨[' '], .mark .openCurly⟩] :=
    .cons nofun (fun afterValue => Lexeme.stands_name afterValue (Lexeme.isName_spelling _) rfl)
      (hmark _ blank_space rfl)
  cases form with
  | array items => exact hmark [] nofun rfl
  | tuple items => exact hmark [] nofun rfl
  | call callee items =>
    refine .cons nofun (fun afterValue => ?_) (hmark [] nofun rfl)
    exact Lexeme.stands_name afterValue callee.valid.name rfl
  | set items => exact hset .set
  | mapping pairs => exact hset .map
  | object fields => exact hmark [] nofun rfl

/-- The last mark before the elements is an opening one. -/
theorem endsValue_opening (form : DelimitedForm settings) :
    endsValue false form.opening = false := by
  cases form <;> rfl

/-- The tokens of the elements, of lexemes behind them and of the text behind those. -/
theorem ofScanner_listed (form : DelimitedForm settings) {x : Spaced} {ys : List Spaced}
    {back : List Char} (hx : x.Apart (chars ys ++ back)) (hys : Written back ys) :
    TokenStream.ofScanner settings.file ⟨(", ".intercalate form.parts).toList ++
        (chars (x :: ys) ++ back), form.front.utf8ByteSize, false, false⟩ =
      .behind (form.tokens ++ tokensAt settings.file
          (form.front.utf8ByteSize + (", ".intercalate form.parts).utf8ByteSize) (x :: ys))
        (.ofScanner settings.file ⟨back, form.front.utf8ByteSize +
          (", ".intercalate form.parts).utf8ByteSize + Utf8.size (chars (x :: ys)), false,
          endsValue false (x :: ys)⟩) := by
  have hlisted {α β : Type} {production : Descent → Parse β} (xs : List α)
      (f : α → Element settings production) :
      ", ".intercalate (xs.map fun x => (f x).text) = Element.listed (xs.map f) := by
    rw [Element.listed, List.map_map]
    rfl
  cases form with
  | array items | tuple items | call callee items | set items =>
    rw [parts, show ", ".intercalate (items.map Item.source) = _ from hlisted items Item.element]
    exact Element.ofScanner_listed _ hx hys _
  | mapping pairs =>
    rw [parts, show ", ".intercalate (pairs.map Pair.source) = _ from hlisted pairs Pair.element]
    exact Element.ofScanner_listed _ hx hys _
  | object fields =>
    rw [parts, show ", ".intercalate (fields.map Labelled.source) = _ from
      hlisted fields Labelled.element]
    exact Element.ofScanner_listed _ hx hys _

/-- The tokens of a form up to the elements, of the elements, of lexemes behind them and of the text
behind those. -/
theorem ofSource_front (form : DelimitedForm settings) {x : Spaced} {ys : List Spaced}
    {back : List Char} (hx : x.Apart (chars ys ++ back)) (hys : Written back ys) {text : String}
    (htext : text.toList = chars (x :: ys) ++ back) :
    TokenStream.ofSource (form.front ++ ", ".intercalate form.parts ++ text) settings.file =
      .behind (tokensAt settings.file 0 form.opening ++ (form.tokens ++ tokensAt settings.file
          (form.front.utf8ByteSize + (", ".intercalate form.parts).utf8ByteSize) (x :: ys)))
        (.ofScanner settings.file ⟨back, form.front.utf8ByteSize +
          (", ".intercalate form.parts).utf8ByteSize + Utf8.size (chars (x :: ys)), false,
          endsValue false (x :: ys)⟩) := by
  have hopening := TokenStream.ofScanner_written settings.file (form.written_opening
    ((", ".intercalate form.parts).toList ++ (chars (x :: ys) ++ back))) 0 false
  rw [form.endsValue_opening, Nat.zero_add, ← form.toList_front, Utf8.size_toList,
    form.ofScanner_listed hx hys, TokenStream.behind_behind] at hopening
  rw [TokenStream.ofSource, Scanner.ofSource, ← hopening]
  simp [htext]

/-- The tokens of a form without its closing delimiter, of a lexeme there and of what follows. -/
theorem exists_ofSource_upTo (form : DelimitedForm settings) (comma : Bool) {x : Spaced}
    {back : List Char} (hx : x.Apart back) {text : String}
    (htext : text.toList = x.gap ++ (x.lexeme.text ++ back)) :
    ∃ trailing : Option Token, trailing.isSome = comma ∧ (∀ t ∈ trailing, t.kind = .comma) ∧
      TokenStream.ofSource (form.upTo comma ++ text) settings.file =
        .behind (tokensAt settings.file 0 form.opening ++ (form.tokens ++
            (trailing.toList ++ [x.tokenAt settings.file (form.upTo comma).utf8ByteSize])))
          (.ofScanner settings.file ⟨back, (form.upTo comma).utf8ByteSize + Utf8.size x.gap +
            Utf8.size x.lexeme.text, false, x.lexeme.token.endsValue⟩) := by
  cases comma with
  | false =>
    have hstream := form.ofSource_front hx .nil (htext.trans (by simp))
    refine ⟨none, rfl, nofun, ?_⟩
    simpa [upTo, tokensAt, endsValue, Nat.add_assoc] using hstream
  | true =>
    have hcomma : ("," ++ text).toList = chars [.comma, x] ++ back := by
      rw [String.toList_append, htext, chars_cons, chars_cons, chars_nil]
      simp only [List.append_assoc, List.append_nil]
      rfl
    have hwritten : Written back [x] := .cons hx.blank hx.stands .nil
    have hstream := form.ofSource_front (apart_comma _) hwritten hcomma
    refine ⟨some (Spaced.comma.tokenAt settings.file
      (form.front.utf8ByteSize + (", ".intercalate form.parts).utf8ByteSize)), rfl, ?_, ?_⟩
    · rintro _ ⟨⟩
      rfl
    · have hsize : (form.upTo true).utf8ByteSize = form.front.utf8ByteSize +
          (", ".intercalate form.parts).utf8ByteSize + 1 := by
        simp only [upTo, String.utf8ByteSize_append]
        rfl
      have hassoc : form.upTo true ++ text =
          form.front ++ ", ".intercalate form.parts ++ ("," ++ text) := by
        simp [upTo, String.append_assoc]
      rw [hassoc, hsize, hstream]
      simp [tokensAt, endsValue, Nat.add_assoc]

/-! ## Reading a form -/

theorem closing_mem (form : DelimitedForm settings) : form.closing ∈ TokenKind.closings := by
  cases form <;> simp [closing, TokenKind.closings]

/-- The keyword that a name at the beginning of a text is. -/
theorem keyword?_name (name file : String) :
    (Spaced.tokenAt ⟨[], .name name⟩ file 0).keyword? = Keyword.ofSpelling? name :=
  (show Spells ⟨[], .name name⟩ _ from ⟨rfl, rfl, rfl⟩).keyword?

/-- A form begins an expression, whatever follows what stands before the elements. -/
theorem opens (form : DelimitedForm settings) (r : List Token) :
    Opens (tokensAt settings.file 0 form.opening ++ r) := by
  have hmark {kind : TokenKind} (hstart : kind ∈ expressionStart) (hkind : kind ≠ .identifier) :
      Opens (tokensAt settings.file 0 [⟨[], .mark kind⟩] ++ r) :=
    .of_mark hstart hkind
  have hword {name : String} {x : Spaced} (hif : Keyword.ofSpelling? name ≠ some .if)
      (hopen : x.lexeme.kind = .openParen ∨ x.lexeme.kind = .openCurly) :
      Opens (tokensAt settings.file 0 [⟨[], .name name⟩, x] ++ r) :=
    .of_word rfl (by simpa [Token.isKeyword, keyword?_name] using hif) hopen
  cases form with
  | array items | tuple items | object fields => exact hmark (by decide) (by decide)
  | call callee items => exact hword (by rw [callee.valid.plain]; nofun) (.inl rfl)
  | set items | mapping pairs =>
    exact hword (by rw [Keyword.ofSpelling?_spelling]; decide) (.inr rfl)

section Reading

variable {trailing : Option Token} {k t : Token} {levels : Nat}

/-- The elements of a form are read, and the closing delimiter. -/
theorem consumes_expr (form : DelimitedForm settings) (hk : k.kind = form.closing)
    (htrailing : ∀ t ∈ trailing, t.kind = .comma) (hsome : trailing.isSome = true → form.parts ≠ [])
    (hlevels : form.tokens.length ≤ levels + 1) :
    Consumes (Parse.expr (descent .standard settings.elseRequired (levels + 2)) .default) .outside
      (tokensAt settings.file 0 form.opening ++ (form.tokens ++ (trailing.toList ++ [k]))) []
      (· = form.tree trailing.isSome ⟨.ofOffset 0 settings.file, k.span.stop⟩) := by
  have hclose := form.closing_mem
  -- Between the delimiters stand the same elements in all forms.
  have hlist {α β : Type} {production : Descent → Parse β} (xs : List α)
      (f : α → Element settings production) {close : TokenKind}
      (hclose : close ∈ TokenKind.closings) (hk : k.kind = close)
      (hsome : trailing.isSome = true → xs ≠ []) {place : Nat}
      (hlevels : (Element.tokensOf place (xs.map f)).length ≤ levels + 1) :=
    Element.consumes_delimited (c := .outside) (xs.map f) hclose hk htrailing
      (fun h => by simpa using hsome h) hlevels []
  cases form with
  | array items =>
    have hitems := hlist items Item.element hclose hk (by simpa [parts] using hsome) hlevels
    refine .primary (.sequence .array) rfl (by decide) ((Consumes.array rfl hitems).mono ?_)
    rintro _ ⟨_, rfl, rfl⟩
    rfl
  | tuple items =>
    have hitems := hlist items Item.element hclose hk (by simpa [parts] using hsome) hlevels
    refine .primary (.sequence .tuple) rfl (by decide) ?_
    match items, trailing with
    | [item], none =>
      refine .grouping rfl (hitems.mono ?_)
      rintro _ rfl
      exact ⟨_, rfl, rfl, rfl⟩
    | [], _ | [_], some _ | _ :: _ :: _, _ =>
      refine (Consumes.tuple rfl hitems ?_).mono ?_
      · rintro _ rfl hlength
        simp at hlength ⊢
      · rintro _ ⟨_, rfl, rfl⟩
        rfl
  | call callee items =>
    have hitems := hlist items Item.element hclose hk (by simpa [parts] using hsome) hlevels
    have hplain : (Spaced.tokenAt ⟨[], .name callee.text⟩ settings.file 0).keyword? = none := by
      rw [keyword?_name, callee.valid.plain]
    refine (Consumes.labelCall rfl hplain rfl rfl (by decide) hitems).mono ?_
    rintro _ ⟨_, rfl, rfl⟩
    simp [tree, node, Spaced.tokenAt, Lexeme.tokenAt, Lexeme.name, Utf8.size_toList]
  | set items =>
    have hitems := hlist items Item.element hclose hk (by simpa [parts] using hsome) hlevels
    refine .primary .label rfl (by decide) (.of_current rfl ?_)
    rw [keyword?_name, Keyword.ofSpelling?_spelling]
    refine .opener true rfl ((Consumes.set rfl rfl hitems).mono ?_)
    rintro _ ⟨_, rfl, rfl⟩
    rfl
  | mapping pairs =>
    have hpairs := hlist pairs Pair.element hclose hk (by simpa [parts] using hsome) hlevels
    refine .primary .label rfl (by decide) (.of_current rfl ?_)
    rw [keyword?_name, Keyword.ofSpelling?_spelling]
    refine .opener true rfl ((Consumes.mapping rfl rfl hpairs).mono ?_)
    rintro _ ⟨_, rfl, rfl⟩
    rfl
  | object fields =>
    have hfields := hlist fields Labelled.element hclose hk (by simpa [parts] using hsome) hlevels
    refine .primary .object rfl (by decide) ((Consumes.object rfl hfields).mono ?_)
    rintro _ ⟨_, rfl, rfl⟩
    rfl

/-- Where an element is to come, a comma is refused. -/
theorem rejects_expr (form : DelimitedForm settings) (htrailing : ∀ t ∈ trailing, t.kind = .comma)
    (hsome : trailing.isSome = true ↔ form.parts ≠ []) (hlevels : form.tokens.length ≤ levels + 1)
    (ht : t.kind = .comma) (r : List Token) :
    Rejects (Parse.expr (descent .standard settings.elseRequired (levels + 2)) .default) .outside
      (tokensAt settings.file 0 form.opening ++ (form.tokens ++ trailing.toList)) (t :: r)
      (t.unexpected form.expected) := by
  have hclose := form.closing_mem
  have heof : t.kind ≠ .eof := by rw [ht]; decide
  have hexpr : Rejects ((descent .standard settings.elseRequired (levels + 2)).expr .default)
      .inside [] (t :: r) (t.unexpected expressionStart) :=
    .noExpr (by rw [ht]; rfl) heof
  have hlist {α β : Type} {production : Descent → Parse β} (xs : List α)
      (f : α → Element settings production) {close : TokenKind} {e : Error}
      (hclose : close ∈ TokenKind.closings) (hsome : trailing.isSome = true ↔ xs ≠ []) {place : Nat}
      (hlevels : (Element.tokensOf place (xs.map f)).length ≤ levels + 1)
      (hnone : Rejects (production (descent .standard settings.elseRequired (levels + 2))) .inside
        [] (t :: r) e) :=
    Element.rejects_delimited (c := .outside) (xs.map f) hclose htrailing
      (hsome.trans (not_congr List.map_eq_nil_iff).symm) hlevels ht hnone
  cases form with
  | array items =>
    have hitems := hlist items Item.element hclose (by simpa [parts] using hsome) hlevels hexpr
    exact .primary (.sequence .array) rfl (.array rfl hitems)
  | tuple items =>
    have hitems := hlist items Item.element hclose (by simpa [parts] using hsome) hlevels hexpr
    exact .primary (.sequence .tuple) rfl (.tuple rfl hitems)
  | call callee items =>
    have hitems := hlist items Item.element hclose (by simpa [parts] using hsome) hlevels hexpr
    have hplain : (Spaced.tokenAt ⟨[], .name callee.text⟩ settings.file 0).keyword? = none := by
      rw [keyword?_name, callee.valid.plain]
    change Rejects _ _ ([Spaced.tokenAt ⟨[], .name callee.text⟩ settings.file 0] ++
      Spaced.tokenAt ⟨[], .mark .openParen⟩ settings.file _ :: _) _ _
    exact .chain .label rfl (.label rfl hplain) fun _ _ => .chainCall rfl rfl (.call rfl hitems)
  | set items =>
    have hitems := hlist items Item.element hclose (by simpa [parts] using hsome) hlevels hexpr
    refine .primary .label rfl (.of_look (.current rfl) ?_)
    rintro _ rfl
    rw [keyword?_name, Keyword.ofSpelling?_spelling]
    exact .opener rfl (.set rfl rfl hitems)
  | mapping pairs =>
    have hpairs := hlist pairs Pair.element hclose (by simpa [parts] using hsome) hlevels
      (.first hexpr)
    refine .primary .label rfl (.of_look (.current rfl) ?_)
    rintro _ rfl
    rw [keyword?_name, Keyword.ofSpelling?_spelling]
    exact .opener rfl (.mapping rfl rfl hpairs)
  | object fields =>
    have hfields := hlist fields Labelled.element hclose (by simpa [parts] using hsome) hlevels
      (.first (.expectOr (by rw [ht]; decide) heof [.identifier]))
    exact .primary .object rfl (.object rfl hfields)

end Reading

/-! ## Whole sources -/

/-- The mark behind the elements does not go on with what stands before it. -/
theorem apart_closing (form : DelimitedForm settings) (back : List Char) :
    Spaced.Apart ⟨[], .mark form.closing⟩ back := by
  refine ⟨nofun, fun afterValue => Lexeme.stands_closed afterValue back ?_, ?_⟩
  · cases form <;> rfl
  · cases form <;> exact ⟨_, back, rfl, by decide⟩

theorem toList_back (form : DelimitedForm settings) :
    form.back.toList = (Lexeme.mark form.closing).text := by
  cases form <;> simp only [back, closing] <;> rfl

/-- A comma behind white space. -/
theorem apart_blank_comma (gap : Blank) (back : List Char) :
    Spaced.Apart ⟨gap.text, .mark .comma⟩ back := by
  refine ⟨gap.blank, fun afterValue => Lexeme.stands_closed afterValue back rfl, ?_⟩
  obtain ⟨text, hblank⟩ := gap
  cases text with
  | nil => exact (apart_comma back).apart
  | cons c text =>
    exact Lexeme.beginsApart_of_blank ⟨c, _, rfl, hblank c List.mem_cons_self⟩

/-- The tokens of a form, with or without a comma behind the last element. -/
theorem exists_ofSource (form : DelimitedForm settings) (comma : Bool) :
    ∃ (trailing : Option Token) (k stop : Token), trailing.isSome = comma ∧
      (∀ t ∈ trailing, t.kind = .comma) ∧ k.kind = form.closing ∧
      k.span.stop = .ofOffset (form.source comma).utf8ByteSize settings.file ∧
      TokenStream.ofSource (form.source comma) settings.file =
        ⟨tokensAt settings.file 0 form.opening ++ (form.tokens ++ (trailing.toList ++ [k])),
          .ok stop⟩ := by
  have hback : form.back.utf8ByteSize = Utf8.size (Lexeme.mark form.closing).text := by
    rw [← form.toList_back, Utf8.size_toList]
  obtain ⟨trailing, hsome, htrailing, hstream⟩ := form.exists_ofSource_upTo comma
    (form.apart_closing []) (form.toList_back.trans (List.append_nil _).symm)
  obtain ⟨stop, hend⟩ := TokenStream.exists_ofScanner_of_written settings.file
    (.nil : Written [] []) ((form.upTo comma).utf8ByteSize + Utf8.size [] +
      Utf8.size (Lexeme.mark form.closing).text) (Lexeme.mark form.closing).token.endsValue
  rw [chars_nil] at hend
  refine ⟨trailing, Spaced.tokenAt ⟨[], .mark form.closing⟩ settings.file
    (form.upTo comma).utf8ByteSize, stop, hsome, htrailing, rfl, ?_, ?_⟩
  · rw [source, String.utf8ByteSize_append, hback]
    rfl
  · rw [source, hstream, hend, TokenStream.behind, tokensAt, List.append_nil]

/-- A form is read as one expression, with or without a comma behind the last element. -/
theorem readsAs (form : DelimitedForm settings) {comma : Bool}
    (hcomma : comma = true → form.parts ≠ []) :
    ReadsAs (form.source comma) settings
      (form.tree comma (wholeSpan (form.source comma) settings.file)) := by
  obtain ⟨trailing, k, stop, rfl, htrailing, hk, hstop, hstream⟩ := form.exists_ofSource comma
  rw [wholeSpan, ← hstop]
  refine .of_consumes hstream (form.opens _) fun levels hlevels => ?_
  refine form.consumes_expr hk htrailing hcomma ?_
  simp only [List.length_append] at hlevels
  omega

/-- Where an element is to come, a comma is refused, whatever follows. -/
theorem refused (form : DelimitedForm settings) (gap : Blank) (rest : String) :
    Refused (form.before ++ String.ofList gap.text ++ "," ++ rest) settings
      ⟨.unexpectedToken "," form.expected,
        .ofOffset (form.before.utf8ByteSize + Utf8.size gap.text) settings.file⟩ := by
  have htext : (String.ofList gap.text ++ "," ++ rest).toList =
      gap.text ++ ((Lexeme.mark .comma).text ++ rest.toList) := by
    rw [String.toList_append, String.toList_append, String.toList_ofList, List.append_assoc]
    rfl
  obtain ⟨trailing, hsome, htrailing, hstream⟩ :=
    form.exists_ofSource_upTo (!form.parts.isEmpty) (apart_blank_comma gap rest.toList) htext
  let t := Spaced.tokenAt ⟨gap.text, .mark .comma⟩ settings.file form.before.utf8ByteSize
  obtain ⟨more, htokens⟩ : ∃ more, (TokenStream.ofSource (form.before ++ String.ofList gap.text ++
      "," ++ rest) settings.file).tokens =
        tokensAt settings.file 0 form.opening ++ (form.tokens ++ trailing.toList) ++ t :: more := by
    rw [← String.append_assoc, ← String.append_assoc] at hstream
    rw [before, hstream]
    simp only [TokenStream.tokens_behind, List.append_assoc, List.singleton_append]
    exact ⟨_, rfl⟩
  have hopens (r : List Token) :
      Opens (tokensAt settings.file 0 form.opening ++ (form.tokens ++ trailing.toList) ++ r) := by
    rw [List.append_assoc]
    exact form.opens _
  have hne := (hopens []).ne_nil
  rw [List.append_nil] at hne
  refine .of_rejects htokens (hopens _) hne fun levels hlevels => ?_
  refine form.rejects_expr htrailing (by simp [hsome]) ?_ rfl more
  simp only [List.length_append] at hlevels
  omega

/-- A form has as many elements as were put between its delimiters. -/
theorem elementCount_node (form : DelimitedForm settings) (span : Span) :
    (form.node span).elementCount = form.parts.length := by
  cases form <;> simp [node, parts, Expr.elementCount]

/-- Besides one item between parentheses, a form without a comma is its node. -/
theorem tree_eq_node (form : DelimitedForm settings) {comma : Bool}
    (h : ∀ item, form = tuple [item] → comma = true) (span : Span) :
    form.tree comma span = form.node span := by
  unfold tree
  split
  · next item => exact absurd (h item rfl) (by decide)
  · rfl

/-- Elements between delimiters stay what they are alone, in order, and none of them is lost. A
comma behind the last one leaves the node as it is, but for its end, and makes a tuple of one item
between parentheses, which else is the item. A comma without an element before it is refused where
it stands. -/
theorem reads_elements (form : DelimitedForm settings) :
    (∀ comma, (comma = true → form.parts ≠ []) → (∀ item, form = tuple [item] → comma = true) →
      ReadsAs (form.source comma) settings
        (form.node (wholeSpan (form.source comma) settings.file))) ∧
    (∀ span, (form.node span).elementCount = form.parts.length) ∧
    (∀ item, form = tuple [item] → ReadsAs (form.source false) settings (item.treeAt 1)) ∧
    ∀ (gap : Blank) (rest : String),
      Refused (form.before ++ String.ofList gap.text ++ "," ++ rest) settings
        ⟨.unexpectedToken "," form.expected,
          .ofOffset (form.before.utf8ByteSize + Utf8.size gap.text) settings.file⟩ := by
  refine ⟨fun comma hcomma hsingle => ?_, form.elementCount_node, ?_, form.refused⟩
  · rw [← form.tree_eq_node hsingle]
    exact form.readsAs hcomma
  · rintro item rfl
    exact readsAs (tuple [item]) (fun h => absurd h (by decide))

/-- An array of a label and a call, with a comma behind them, and with one more comma that has no
element before it. -/
theorem reads_elements_array : ∃ form : DelimitedForm {},
    form.source true = "[a, f(b),]" ∧
    ReadsAs "[a, f(b),]" {} (form.node (wholeSpan "[a, f(b),]" "shell")) ∧
    Refused "[a, f(b), , c" {} ⟨.unexpectedToken "," expressionStart, .ofOffset 10 "shell"⟩ := by
  have hitems : ((expr? "a" {}).isSome = true ∧ (expr? "f(b)" {}).isSome = true) ∧
      Inline "a" "shell" ∧ Inline "f(b)" "shell" := by
    decide +kernel
  have htexts : "[" ++ ", ".intercalate ["a", "f(b)"] ++ "," = "[a, f(b)," ∧
      "[a, f(b)," ++ "]" = "[a, f(b),]" ∧
      "[a, f(b)," ++ String.ofList [' '] ++ "," ++ " c" = "[a, f(b), , c" ∧
      "[a, f(b),".utf8ByteSize + Utf8.size [' '] = 10 := by
    decide +kernel
  obtain ⟨⟨hfirst, hsecond⟩, hline, hline'⟩ := hitems
  obtain ⟨hupTo, hsource, hrefused, hplace⟩ := htexts
  obtain ⟨first, hfirst⟩ := Option.isSome_iff_exists.mp hfirst
  obtain ⟨second, hsecond⟩ := Option.isSome_iff_exists.mp hsecond
  let items : List (Item {}) := [⟨"a", first, expr?_eq_some_iff.mp hfirst, hline⟩,
    ⟨"f(b)", second, expr?_eq_some_iff.mp hsecond, hline'⟩]
  obtain ⟨hreads, -, -, hrefuses⟩ := reads_elements (array items)
  have hread := hreads true (fun _ => List.cons_ne_nil _ _) fun _ _ => rfl
  have hcomma := hrefuses ⟨[' '], blank_space⟩ " c"
  have hbefore : (array items).before = "[a, f(b)," := hupTo
  have hall : (array items).source true = "[a, f(b),]" := by
    rw [source, show (array items).upTo true = _ from hupTo]
    exact hsource
  rw [hall] at hread
  rw [hbefore, hrefused, hplace] at hcomma
  exact ⟨array items, hall, hread, hcomma⟩

end DelimitedForm

end SurfaceGrammar

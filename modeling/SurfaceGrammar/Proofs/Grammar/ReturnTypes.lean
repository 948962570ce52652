import SurfaceGrammar.Proofs.Grammar.Types

/-!
# Return types

A return type stands right before the curly bracket that opens the body of its function. That
bracket is never taken for a part of the type, though the last word of the type may be one that
opens a block, a set or a map elsewhere. Such words do so inside of the arguments of a call in the
type, and again in the body.

* `IsTypeSource`: sources on one line with the tokens of a type.
* `typedFunction`: the text of a function with a return type and a body.
* `TypedFunction.exists_ofSource`: its tokens.
* `TypedFunction.consumes_expr`: how it is read from them.
* `parse_typedFunction`: its return type and its body.
-/

namespace SurfaceGrammar

open Lookahead Spaced

/-- A source on one line, without comments, with the tokens of a type. -/
structure IsTypeSource (source : String) (settings : Settings) : Prop where
  inline : Inline source settings.file
  spells : ∃ ts stop, TokenStream.ofSource source settings.file = ⟨ts, .ok stop⟩ ∧
    IsType settings ts

/-- A function with a return type. The closing curly bracket of its body stands on a new line. -/
def typedFunction (type body : String) : String :=
  "fn f() : " ++ type ++ " \x7b " ++ body ++ "\n\x7d"

namespace TypedFunction

/-! ## Tokens -/

/-- The words and the marks before the return type. -/
def front : List Spaced :=
  [⟨[], .name "fn"⟩, ⟨[' '], .name "f"⟩, ⟨[], .mark .openParen⟩, ⟨[], .mark .closeParen⟩,
    ⟨[' '], .mark .colon⟩]

/-- The curly bracket behind the return type. -/
def opening : Spaced := ⟨[' '], .mark .openCurly⟩

/-- Where the return type stands, behind `fn f() : `. -/
def typePlace : Nat := 9

/-- Where the body stands, behind the return type and the curly bracket with its spaces. -/
def bodyPlace (type : String) : Nat := typePlace + type.utf8ByteSize + 3

theorem written_front (back : List Char) : Written (' ' :: back) front := by
  refine .cons nofun (fun afterValue => ?_) ?_
  · exact Lexeme.stands_name afterValue (Lexeme.isName_spelling .fn) rfl
  refine .cons blank_space (fun afterValue => ?_) ?_
  · exact Lexeme.stands_name afterValue ⟨'f', [], rfl, rfl, nofun⟩ rfl
  refine .cons nofun (fun afterValue => Lexeme.stands_closed afterValue _ rfl) ?_
  refine .cons nofun (fun afterValue => Lexeme.stands_closed afterValue _ rfl) ?_
  exact .cons blank_space (fun afterValue => Lexeme.stands_mark afterValue back (by decide)) .nil

theorem apart_opening (back : List Char) : opening.Apart back where
  blank := blank_space
  stands afterValue := Lexeme.stands_closed afterValue back rfl
  apart := ⟨' ', _, rfl, by decide⟩

variable {type body file : String} {ts us : List Token} {t stop stop' : Token}

/-- The tokens of the body, and those of the closing curly bracket on a new line. -/
theorem exists_ofScanner_body (hbody : TokenStream.ofSource body file = ⟨us, .ok stop⟩)
    (place : Nat) :
    ∃ k last : Token, k.kind = .closeCurly ∧
      TokenStream.ofScanner file ⟨body.toList ++ "\n\x7d".toList, place, false, false⟩ =
        ⟨(TokenStream.moved ⟨us, .ok stop⟩ place false).tokens ++ [k], .ok last⟩ := by
  have hblank : IsBlank ['\n'] := ⟨List.cons_ne_nil _ _, List.forall_mem_singleton.mpr rfl⟩
  have hstands : (Lexeme.mark .closeCurly).Stands false [] := Lexeme.stands_closed false [] rfl
  have hmoved := TokenStream.ofScanner_moved body file place false
  obtain ⟨stop', hstop⟩ := TokenStream.exists_moved us stop place false
  rw [hbody, hstop] at hmoved
  obtain ⟨behind, hbehind, hclosed⟩ :=
    TokenStream.ofScanner_before_line hmoved hblank (List.mem_singleton_self _) hstands
  obtain ⟨last, hend⟩ :=
    TokenStream.exists_ofScanner_of_written file (.nil : Written [] []) _ _
  obtain rfl := hbehind.trans hend
  exact ⟨_, last, rfl, hclosed⟩

/-- The tokens before the return type, those of the type, and those of the body between curly
brackets. -/
theorem exists_ofSource (htype : TokenStream.ofSource type file = ⟨ts, .ok stop⟩)
    (hline : Inline type file) (hbody : TokenStream.ofSource body file = ⟨us, .ok stop'⟩) :
    ∃ k last : Token, k.kind = .closeCurly ∧
      TokenStream.ofSource (typedFunction type body) file =
        ⟨tokensAt file 0 front ++ (ts.map (Token.shift typePlace) ++
          opening.tokenAt file (typePlace + type.utf8ByteSize) ::
            ((TokenStream.moved ⟨us, .ok stop'⟩ (bodyPlace type) false).tokens ++ [k])),
          .ok last⟩ := by
  obtain ⟨k, last, hk, hbody⟩ := exists_ofScanner_body hbody (bodyPlace type)
  refine ⟨k, last, hk, ?_⟩
  generalize hbehind : body.toList ++ "\n\x7d".toList = behind at hbody
  have htext : (typedFunction type body).toList = chars front ++ ([' '] ++ (type.toList ++
      (opening.gap ++ (opening.lexeme.text ++ ([' '] ++ behind))))) := by
    have hfront : "fn f() : ".toList = chars front ++ [' '] := rfl
    have hopening : " \x7b ".toList = opening.gap ++ (opening.lexeme.text ++ [' ']) := rfl
    simp only [typedFunction, String.toList_append, hfront, hopening, List.append_assoc, hbehind]
  have hspace (text : List Char) (offset : Nat) :
      TokenStream.ofScanner file ⟨[' '] ++ text, offset, false, false⟩ =
        TokenStream.ofScanner file ⟨text, offset + 1, false, false⟩ :=
    TokenStream.ofScanner_blank file blank_space text offset
  rw [TokenStream.ofSource, Scanner.ofSource, htext]
  calc TokenStream.ofScanner file ⟨chars front ++ ([' '] ++ (type.toList ++ (opening.gap ++
          (opening.lexeme.text ++ ([' '] ++ behind))))), 0, false, false⟩
    _ = .behind (tokensAt file 0 front) (.ofScanner file ⟨[' '] ++ (type.toList ++ (opening.gap ++
          (opening.lexeme.text ++ ([' '] ++ behind)))), 8, false, false⟩) :=
      TokenStream.ofScanner_written file (written_front _) 0 false
    _ = .behind (tokensAt file 0 front) (.behind (ts.map (Token.shift typePlace) ++
          [opening.tokenAt file (typePlace + type.utf8ByteSize)]) (.ofScanner file
            ⟨[' '] ++ behind, typePlace + type.utf8ByteSize + 1 + 1, false, false⟩)) := by
      rw [hspace]
      exact congrArg _ (Scans.inline htype hline typePlace opening _ (apart_opening _))
    _ = _ := by
      rw [hspace, show typePlace + type.utf8ByteSize + 1 + 1 + 1 = bodyPlace type from rfl, hbody]
      simp [TokenStream.behind]

/-! ## Reading -/

variable {elseRequired : Bool} {levels : Nat} {k : Token} {r : List Token}
  {Q : Expr Span → Prop} {R : List (Stmt Span) → Prop}

/-- The function is read if its return type is read in front of a curly bracket, and the statements
of its body are read behind it. -/
theorem consumes_expr (file : String) (hopen : t.kind = .openCurly) (hk : k.kind = .closeCurly)
    (htype : Consumes (Parse.expr (descent .standard elseRequired levels) .default)
      (Surroundings.outside.typing true) ts (t :: (us ++ [k])) Q)
    (hbody : Consumes (Parse.statements (descent .standard elseRequired (levels + 1)) .closeCurly
      (levels + 1)) .outside us [k] R) :
    Consumes (Parse.expr (descent .standard elseRequired (levels + 1)) .default) .outside
      (tokensAt file 0 front ++ (ts ++ t :: (us ++ [k]))) [] fun e => ∃ type body span,
        Q type ∧ R body ∧ e = .function (some "f") [] (some type) (.block body) span := by
  have hfront := spells_tokensAt file 0 front
  generalize tokensAt file 0 front = fs at hfront
  obtain _ | @⟨_, w, _, _, hword, _ | @⟨_, n, _, _, hname, _ | @⟨_, o, _, _, hparen, _ |
    @⟨_, q, _, _, hclose, _ | @⟨_, d, _, _, hcolon, ⟨⟩⟩⟩⟩⟩⟩ := hfront
  have hnamed : ∀ x ∈ some n, x.kind = .identifier := by
    rintro _ ⟨⟩
    exact hname.kind
  have hparameters : Consumes (Parse.delimited (levels + 1) .closeParen (Parse.parameter
      (descent .standard elseRequired (levels + 1)))) .outside [q]
      (d :: ts ++ (t :: (us ++ [k]) ++ [])) fun list => list.elements = [] := by
    refine (Consumes.delimited (.noElement hclose.kind) hclose.kind).mono ?_
    intro list hlist
    exact congrArg Prod.fst hlist.1
  have hinner (typed : Bool) : Consumes (Parse.functionBody (descent .standard elseRequired
      (levels + 1)) typed) (Surroundings.outside.typing false) (t :: (us ++ [k])) []
      fun b => ∃ body, R body ∧ b = .block body :=
    .statementBody hopen (.blockBody hopen hbody hk)
  have hreturn : Consumes (Parse.typeAfterColon (descent .standard elseRequired (levels + 1)))
      (Surroundings.outside.typing true) (d :: ts) (t :: (us ++ [k]) ++ [])
      fun type => ∃ e, Q e ∧ type = some e := by
    rw [List.append_nil]
    exact .typePresent hcolon.kind htype
  have hfunction := Consumes.function (some n) hword.kind hnamed hparen.kind hparameters hreturn
    hinner
  have hlabel : Consumes (Parse.label (descent .standard elseRequired (levels + 1))) .outside
      (w :: n :: o :: q :: d :: (ts ++ t :: (us ++ [k]))) [] fun e => ∃ type body span,
        Q type ∧ R body ∧ e = .function (some "f") [] (some type) (.block body) span := by
    refine .of_current rfl ?_
    rw [hword.keyword?, show Keyword.ofSpelling? "fn" = some .fn from rfl]
    refine hfunction.mono ?_
    rintro _ ⟨list, _, _, span, hlist, ⟨type, htype, rfl⟩, ⟨body, hbody, rfl⟩, rfl⟩
    rw [hlist]
    refine ⟨type, body, span, htype, hbody, ?_⟩
    rw [Option.map_some, hname.value]
    rfl
  have hrule : Rules.standardPrimary? w.kind = some .label := by
    rw [hword.kind]
    rfl
  exact .primary .label hrule (by decide) hlabel

/-- An expression begins where the function does. -/
theorem opens (file : String) (r : List Token) : Opens (tokensAt file 0 front ++ r) where
  start := show TokenKind.identifier ∈ expressionStart by decide
  noLabel := rfl
  noType := rfl
  noConditional := rfl

end TypedFunction

open TypedFunction in
/-- A function whose return type is written with labels, operators, members, suffixes and calls has
the type that is read if it stands alone, and the statements of its body. The curly bracket before
the body is never part of the type. -/
theorem parse_typedFunction {type body : String} {settings : Settings} {m : Module}
    (htype : IsTypeSource type settings) (h : parse body settings = .ok m) :
    ∃ e w span, IsExpr type settings e ∧ parse (typedFunction type body) settings = .ok w ∧
      w.body = [.expression (.function (some "f") [] (some (e.mapMark (Span.shift typePlace)))
        (.block (m.body.map (Stmt.mapMark (Span.shift (bodyPlace type))))) span)] := by
  obtain ⟨hline, ts, stop, hstream, hts⟩ := htype
  obtain ⟨w, stop', hbody, -⟩ := derives_of_parse h
  generalize words w = us at hbody
  obtain ⟨e, hread⟩ := hts.exists_reads (TokenStream.newlineBefore_of_inline hstream hline.line)
  obtain ⟨k, last, hk, hall⟩ := exists_ofSource hstream hline hbody
  have hlength := TokenStream.length_tokens_moved ⟨us, .ok stop'⟩ (bodyPlace type) false
  obtain ⟨levels, hlevels⟩ : ∃ levels, levels = ts.length + us.length + 7 := ⟨_, rfl⟩
  have hsource := Parse.consumes_source h hbody hk (bodyPlace type) false
    (by omega : us.length < levels + 1) []
  generalize (TokenStream.moved ⟨us, .ok stop'⟩ (bodyPlace type) false).tokens = bs
    at hall hlength hsource
  have hreturn := hread typePlace levels (Surroundings.outside.typing true)
    (opening.tokenAt settings.file (typePlace + type.utf8ByteSize) :: (bs ++ [k])) (by omega)
    ⟨rfl, rfl, rfl⟩ rfl
  have hopens := opens settings.file (ts.map (Token.shift typePlace) ++
    opening.tokenAt settings.file (typePlace + type.utf8ByteSize) :: (bs ++ [k]))
  have hlist := Consumes.onlyStatement (by rwa [List.append_nil]) hopens.ne_nil kind_nil (.inl rfl)
    (consumes_expr settings.file rfl hk hreturn hsource)
  have hcount : (tokensAt settings.file 0 front ++ (ts.map (Token.shift typePlace) ++
      opening.tokenAt settings.file (typePlace + type.utf8ByteSize) :: (bs ++ [k]))).length <
        levels + 2 := by
    simp only [List.length_append, List.length_cons, List.length_map, List.length_nil, hlength]
    show 5 + _ < _
    omega
  obtain ⟨w, hw, _, honly, _, _, span, rfl, rfl, rfl⟩ := parse_of_consumes hall hcount hlist
  exact ⟨e, w, span, hread.isExpr hstream, hw, Stmt.eq_of_only? honly⟩

/-- The word `do` opens no block before the parenthesis and `map` no map before the body, but `set`
opens a set inside of the arguments, and `map` a map in the body. -/
theorem parse_typedFunction_words : ∃ (m w : Module) (e : Expr Span) (span : Span),
    IsTypeSource "do(set \x7b a \x7d).map" {} ∧ parse "map \x7b a: b \x7d" {} = .ok m ∧
    IsExpr "do(set \x7b a \x7d).map" {} e ∧
    parse "fn f() : do(set \x7b a \x7d).map \x7b map \x7b a: b \x7d\n\x7d" {} = .ok w ∧
    w.body = [.expression (.function (some "f") [] (some (e.mapMark (Span.shift 9)))
      (.block (m.body.map (Stmt.mapMark (Span.shift 29)))) span)] := by
  have hargument : (expr? "set \x7b a \x7d" {}).isSome = true ∧
      Inline "set \x7b a \x7d" "shell" := by
    decide +kernel
  have htokens : (TokenStream.ofSource "do(set \x7b a \x7d).map" "shell").tokens =
      tokenAt ⟨[], .name "do"⟩ "shell" 0 :: tokenAt ⟨[], .mark .openParen⟩ "shell" 2 ::
        ((TokenStream.ofSource "set \x7b a \x7d" "shell").tokens.map (Token.shift 3) ++
          [tokenAt ⟨[], .mark .closeParen⟩ "shell" 12] ++
            [tokenAt ⟨[], .mark .dot⟩ "shell" 13, tokenAt ⟨[], .name "map"⟩ "shell" 14]) := by
    decide +kernel
  have hinline : Inline "do(set \x7b a \x7d).map" "shell" ∧
      (TokenStream.ofSource "do(set \x7b a \x7d).map" "shell").ending.isOk = true := by
    decide +kernel
  obtain ⟨hexpr, hline⟩ := hargument
  obtain ⟨set, hset⟩ := Option.isSome_iff_exists.mp hexpr
  let item : Item {} := ⟨"set \x7b a \x7d", set, expr?_eq_some_iff.mp hset, hline⟩
  obtain ⟨stop, hstop⟩ := exists_of_isOk hinline.2
  have htype : IsTypeSource "do(set \x7b a \x7d).map" {} := by
    refine ⟨hinline.1, _, stop, congrArg (TokenStream.mk _) hstop, ?_⟩
    refine ⟨_, [], (List.append_nil _).symm, ⟨_, _, htokens, by decide +kernel, ?_⟩, .none⟩
    exact .call rfl (.last ⟨item, 3, rfl⟩) rfl (.member rfl (by decide +kernel) .none)
  obtain ⟨m, hm⟩ : ∃ m, parse "map \x7b a: b \x7d" {} = .ok m := exists_of_isOk (by decide +kernel)
  obtain ⟨e, w, span, he, hw, hbody⟩ := parse_typedFunction htype hm
  exact ⟨m, w, e, span, htype, hm, he, hw, hbody⟩

end SurfaceGrammar

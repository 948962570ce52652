import SurfaceGrammar.Proofs.Grammar.Context
import SurfaceGrammar.Proofs.Grammar.Refusals

/-!
# Which conditional an `else` belongs to

Conditionals on one line are nested in their first branches, and behind them stand branches for the
other case. Each `else` belongs to the innermost conditional that has none yet. If there are more
of them than conditionals, the first one that is left over is an error, since no statement begins
there.

* `Rung`: a conditional of which only the beginning is written, with the word `then` or without.
* `Ladder.source`: the text of such conditionals and the branches behind them.
* `Ladder.nested`: the expression in which the innermost conditionals have these branches.
* `Spaced.ofWords`: words on one line as lexemes with white space before them.
* `TokenStream.ofSource_words`: the tokens of words on one line.
* `Ladder.derives`: the tokens of as many branches as there are conditionals or less.
* `Ladder.parse_dangling`: how the text is parsed.
-/

namespace SurfaceGrammar

/-! ## Texts -/

/-- The beginning of a conditional: a label as its condition, and whether the word `then` stands
behind it. -/
structure Rung where
  condition : Identifier
  hasThen : Bool

/-- The words of the beginning of a conditional. -/
def Rung.spelling (rung : Rung) : List String :=
  Keyword.if.spelling :: rung.condition.text ::
    if rung.hasThen then [Keyword.then.spelling] else []

namespace Ladder

/-- The words of branches for the other case. -/
def otherWords (others : List Identifier) : List String :=
  others.flatMap fun other => [Keyword.else.spelling, other.text]

/-- The words of conditionals in each other, with a label in the innermost place and branches for
the other case behind it. -/
def spelling (rungs : List Rung) (inner : Identifier) (others : List Identifier) : List String :=
  rungs.flatMap Rung.spelling ++ inner.text :: otherWords others

/-- The words on one line, with a space between two of them. -/
def source (rungs : List Rung) (inner : Identifier) (others : List Identifier) : String :=
  String.intercalate " " (spelling rungs inner others)

/-- The conditionals in each other, each in the first branch of the one before it. The innermost one
has the first branch for the other case, the next one the second, as far as there are any. -/
def nested (inner : Identifier) (others : List Identifier) : List Rung → Expr Unit
  | [] => .label inner.text ()
  | rung :: rungs =>
    .conditional (.label rung.condition.text ()) (nested inner others rungs)
      (others[rungs.length]?.map fun other => .label other.text ()) ()

theorem spelling_cons (rung : Rung) (rungs : List Rung) (inner : Identifier)
    (others : List Identifier) :
    spelling (rung :: rungs) inner others = rung.spelling ++ spelling rungs inner others := by
  simp [spelling]

theorem spelling_append (rungs : List Rung) (inner : Identifier) (others more : List Identifier) :
    spelling rungs inner (others ++ more) = spelling rungs inner others ++ otherWords more := by
  simp [spelling, otherWords]

/-- A branch that no conditional is left for does not matter. -/
theorem nested_append {inner : Identifier} {others more : List Identifier} {rungs : List Rung}
    (h : rungs.length ≤ others.length) :
    nested inner (others ++ more) rungs = nested inner others rungs := by
  induction rungs with
  | nil => rfl
  | cons rung rungs ih =>
    rw [List.length_cons] at h
    rw [nested, nested, ih (by omega), List.getElem?_append_left (by omega)]

end Ladder

/-! ## Words on one line -/

/-- The tokens of words on one line, with a space between two of them. -/
def Token.ofWords (file : String) : Nat → List String → List Token
  | _, [] => []
  | offset, word :: rest =>
    (Lexeme.name word).tokenAt file offset false ::
      ofWords file (offset + word.utf8ByteSize + 1) rest

/-- The number of bytes of words with a space behind each. -/
def wordsSize : List String → Nat
  | [] => 0
  | word :: rest => word.utf8ByteSize + 1 + wordsSize rest

theorem Token.ofWords_append (file : String) (offset : Nat) (us vs : List String) :
    ofWords file offset (us ++ vs) =
      ofWords file offset us ++ ofWords file (offset + wordsSize us) vs := by
  induction us generalizing offset with
  | nil => rfl
  | cons u us ih =>
    rw [List.cons_append, ofWords, ofWords, ih, List.cons_append]
    simp [wordsSize, Nat.add_assoc]

theorem size_intercalate (word : String) (ws : List String) :
    (String.intercalate " " (word :: ws)).utf8ByteSize + 1 = wordsSize (word :: ws) := by
  induction ws generalizing word with
  | nil => simp [wordsSize]
  | cons w ws ih =>
    have hws := ih w
    have hspace : " ".utf8ByteSize = 1 := rfl
    rw [String.intercalate_cons_cons, String.utf8ByteSize_append, String.utf8ByteSize_append]
    simp only [wordsSize] at hws ⊢
    omega

/-- The words behind the first one, with a space before each. -/
def Spaced.ofWords (ws : List String) : List Spaced := ws.map fun w => ⟨[' '], .name w⟩

namespace Spaced

theorem toList_intercalate (word : String) (ws : List String) :
    (String.intercalate " " (word :: ws)).toList = word.toList ++ chars (ofWords ws) := by
  induction ws generalizing word with
  | nil => simp [ofWords]
  | cons w ws ih =>
    rw [String.intercalate_cons_cons, String.toList_append, String.toList_append, ih]
    simp [ofWords, Lexeme.name]

theorem endsWord_ofWords (ws : List String) :
    Lexeme.endsWord (chars (ofWords ws) ++ []) = true := by
  cases ws <;> rfl

theorem written_ofWords {ws : List String} (h : ∀ w ∈ ws, Lexeme.IsName w) :
    Written [] (ofWords ws) := by
  induction ws with
  | nil => exact .nil
  | cons w ws ih =>
    rw [List.forall_mem_cons] at h
    refine .cons blank_space (fun afterValue => ?_) (ih h.2)
    exact Lexeme.stands_name afterValue h.1 (endsWord_ofWords ws)

theorem tokensAt_ofWords (file : String) (offset : Nat) (ws : List String) :
    tokensAt file offset (ofWords ws) = Token.ofWords file (offset + 1) ws := by
  induction ws generalizing offset with
  | nil => rfl
  | cons w ws ih =>
    have hsize : Utf8.size (Lexeme.name w).text = w.utf8ByteSize := Utf8.size_toList w
    rw [ofWords, List.map_cons, tokensAt, Token.ofWords, ← hsize]
    exact congrArg _ (ih _)

end Spaced

namespace TokenStream

/-- The tokens of words on one line. -/
theorem ofScanner_words (file : String) {word : String} {ws : List String}
    (h : ∀ w ∈ word :: ws, Lexeme.IsName w) (offset : Nat) (afterValue : Bool) :
    ∃ stop, ofScanner file
        ⟨(String.intercalate " " (word :: ws)).toList, offset, false, afterValue⟩ =
      ⟨Token.ofWords file offset (word :: ws), .ok stop⟩ := by
  rw [List.forall_mem_cons] at h
  have hwritten : Spaced.Written [] (⟨[], .name word⟩ :: Spaced.ofWords ws) := by
    refine .cons nofun (fun afterValue => ?_) (Spaced.written_ofWords h.2)
    exact Lexeme.stands_name afterValue h.1 (Spaced.endsWord_ofWords ws)
  obtain ⟨stop, hstream⟩ := exists_ofScanner_of_written file hwritten offset afterValue
  have hsize : Utf8.size (Lexeme.name word).text = word.utf8ByteSize := Utf8.size_toList word
  rw [Spaced.chars_cons, Spaced.tokensAt, Spaced.tokensAt_ofWords, hsize] at hstream
  rw [Spaced.toList_intercalate]
  exact ⟨stop, hstream⟩

/-- The tokens of a source of words on one line. -/
theorem ofSource_words (file : String) {word : String} {ws : List String}
    (h : ∀ w ∈ word :: ws, Lexeme.IsName w) :
    ∃ stop, ofSource (String.intercalate " " (word :: ws)) file =
      ⟨Token.ofWords file 0 (word :: ws), .ok stop⟩ :=
  ofScanner_words file h 0 false

end TokenStream

/-! ## Deriving the tokens -/

section Words

variable {file : String} {offset : Nat} {word : String}

theorem keyword?_tokenAt :
    ((Lexeme.name word).tokenAt file offset false).keyword? = Keyword.ofSpelling? word := rfl

theorem isKeyword_tokenAt (file : String) (offset : Nat) (keyword : Keyword) :
    ((Lexeme.name keyword.spelling).tokenAt file offset false).isKeyword keyword = true :=
  Token.isKeyword_iff.mpr (keyword?_tokenAt.trans (Keyword.ofSpelling?_spelling keyword))

theorem Identifier.isKeyword (name : Identifier) (keyword : Keyword) :
    ((Lexeme.name name.text).tokenAt file offset false).isKeyword keyword = false := by
  simp [Token.isKeyword, keyword?_tokenAt, name.valid.plain]

end Words

namespace Ladder

open Lookahead

variable {file : String} {elseRequired : Bool} {c : Surroundings} {r : List Token}

/-- A label in front of what no expression goes on with. -/
theorem derives_label (file : String) (name : Identifier) (offset : Nat) (hstops : Stops c r) :
    Derives elseRequired (.expr .default) c
      [c.leaf ((Lexeme.name name.text).tokenAt file offset false)] (.label name.text ()) r := by
  have hplain : plainLabel c ((Lexeme.name name.text).tokenAt file offset false) r = true := by
    simp only [plainLabel, keyword?_tokenAt, name.valid.plain]
    rfl
  exact .expr (.label hplain) (.chainEnd hstops.chain) (.operatorsEnd (hstops.operators _))

/-- What stands behind a branch: the end or a word. -/
def EndsLine (ts : List Token) : Prop :=
  kind ts = .eof ∨ kind ts = .identifier

theorem EndsLine.stops (h : EndsLine r) : Stops c r := by
  refine stops_of_isPause ?_
  obtain h | h := h <;> rw [h] <;> rfl

theorem EndsLine.of_behind {P : Prop} (h : r = [] ∨ isKeyword .else r = true ∧ P) : EndsLine r := by
  obtain rfl | ⟨helse, -⟩ := h
  · exact .inl rfl
  · refine .inr (Decidable.byContradiction fun hkind => ?_)
    rw [isKeyword_of_kind hkind] at helse
    cases helse

/-- A label in the place of a statement. -/
theorem derives_branch {valueRequired : Bool} (name : Identifier) (offset : Nat)
    (hends : EndsLine r) :
    Derives elseRequired (.statementExpr valueRequired) c
      [c.leaf ((Lexeme.name name.text).tokenAt file offset false)] (.label name.text ()) r := by
  refine .plain ?_ (name.isKeyword .if) (derives_label file name offset hends.stops)
  obtain h | h := hends <;> simp [bindsLabel, h, TokenKind.isUpdater]

/-- A conditional from its parts. The word `then` may be left out. -/
theorem derives_rung (file : String) (rung : Rung) (offset : Nat) {wt we : List Leaf}
    {t : Expr Unit} {o : Option (Expr Unit)}
    (elseBranch : Derives elseRequired (.elseBranch false) c we o r)
    (hword : kind (words wt ++ (words we ++ r)) = .identifier)
    (hthen : isKeyword .then (words wt ++ (words we ++ r)) = false)
    (thenBranch : Derives elseRequired (.statementExpr false) c wt t (words we ++ r)) :
    ∃ w, words w = Token.ofWords file offset rung.spelling ++
        (words wt ++ words we) ∧
      Derives elseRequired (.statementExpr false) c w
        (.conditional (.label rung.condition.text ()) t o ()) r := by
  obtain ⟨condition, hasThen⟩ := rung
  have hif : ((Lexeme.name Keyword.if.spelling).tokenAt file offset false).keyword? = some .if :=
    Token.isKeyword_iff.mp (isKeyword_tokenAt _ _ .if)
  -- The conditional with the word `then` or nothing behind the condition.
  have hwhole (ws : List Leaf)
      (hkind : kind (words ws ++ (words wt ++
        (words we ++ r))) = .identifier)
      (separator : Derives elseRequired .thenWord c ws () (words wt ++
        (words we ++ r))) :=
    Derives.chosen (by simp [bindsLabel, Lexeme.tokenAt, Lexeme.name, TokenKind.isUpdater])
      (.conditional hif (derives_label file condition
        (offset + Keyword.if.spelling.utf8ByteSize + 1) (EndsLine.stops (.inr hkind)))
        separator thenBranch elseBranch)
  cases hasThen with
  | false =>
    refine ⟨_, ?_, hwhole [] hword (.thenAbsent hthen)⟩
    simp [Rung.spelling, Token.ofWords]
  | true =>
    have hkeyword := isKeyword_tokenAt file (offset +
      Keyword.if.spelling.utf8ByteSize + 1 + condition.text.utf8ByteSize + 1) .then
    refine ⟨_, ?_, hwhole _ rfl (.thenPresent hkeyword)⟩
    simp [Rung.spelling, Token.ofWords]

/-- The text begins with a label or the word `if`. -/
theorem begins_spelling (file : String) (rungs : List Rung) (inner : Identifier)
    (others : List Identifier) (offset : Nat) : ∃ t ts,
      Token.ofWords file offset (spelling rungs inner others) = t :: ts ∧ t.kind = .identifier ∧
        ∀ keyword ≠ Keyword.if, t.isKeyword keyword = false := by
  cases rungs with
  | nil => exact ⟨_, _, rfl, rfl, fun keyword _ => inner.isKeyword keyword⟩
  | cons rung rungs =>
    refine ⟨_, _, rfl, rfl, fun keyword hkeyword => ?_⟩
    have hif := Token.isKeyword_iff.mp (isKeyword_tokenAt file offset .if)
    simp [Token.isKeyword, hif, hkeyword.symm]

/-- The tokens of conditionals with branches for the other case for the innermost of them, or for
all of them and in front of another `else`. The induction is on the conditionals: the outermost one
has the last branch, if there is one for it. -/
theorem derives (file : String) (elseRequired : Bool) (c : Surroundings) (inner : Identifier)
    (rungs : List Rung) {others : List Identifier}
    (hlength : others.length ≤ rungs.length)
    (hbehind : r = [] ∨ isKeyword .else r = true ∧ others.length = rungs.length) (offset : Nat) :
    ∃ w, words w = Token.ofWords file offset (spelling rungs inner others) ∧
      Derives elseRequired (.statementExpr false) c w (nested inner others rungs) r := by
  induction rungs generalizing others r offset with
  | nil =>
    obtain rfl := List.eq_nil_of_length_eq_zero (Nat.le_zero.mp hlength)
    exact ⟨_, rfl, derives_branch inner offset (.of_behind hbehind)⟩
  | cons rung rungs ih =>
    -- The tokens of the rest begin with another word than `then`.
    have hfirst (others : List Identifier) (ts : List Token) :
        kind (Token.ofWords file (offset + wordsSize rung.spelling) (spelling rungs inner others) ++
          ts) = .identifier ∧
        isKeyword .then (Token.ofWords file (offset + wordsSize rung.spelling)
          (spelling rungs inner others) ++ ts) = false := by
      obtain ⟨t, us, hwords, hkind, hkeyword⟩ :=
        begins_spelling file rungs inner others (offset + wordsSize rung.spelling)
      rw [hwords]
      exact ⟨hkind, hkeyword .then (by decide)⟩
    by_cases hinside : others.length ≤ rungs.length
    · -- No branch is left for the outermost conditional.
      obtain rfl : r = [] := by
        obtain hend | ⟨-, hall⟩ := hbehind
        · exact hend
        · rw [List.length_cons] at hall
          omega
      obtain ⟨wt, hwt, hthen⟩ := ih hinside (.inl rfl) (offset + wordsSize rung.spelling)
      obtain ⟨hword, hnot⟩ := hfirst others []
      rw [← hwt] at hword hnot
      obtain ⟨w, hw, hderives⟩ := derives_rung file rung offset (.elseAbsent rfl rfl) hword hnot
        hthen
      refine ⟨w, ?_, ?_⟩
      · rw [hw, hwt, spelling_cons, Token.ofWords_append, words_nil, List.append_nil]
      · rw [nested, List.getElem?_eq_none hinside]
        exact hderives
    · -- The last branch is that of the outermost conditional.
      obtain ⟨others, last, rfl⟩ : ∃ others' last, others = others' ++ [last] := by
        obtain rfl | hconcat := List.eq_nil_or_concat others
        · simp at hinside
        · simpa using hconcat
      simp only [List.length_append, List.length_cons, List.length_nil] at hlength hinside
      have hrungs : others.length = rungs.length := by omega
      -- The branch, behind all words before it.
      let place := offset + wordsSize rung.spelling + wordsSize (spelling rungs inner others)
      let leaves : List Leaf :=
        [c.leaf ((Lexeme.name Keyword.else.spelling).tokenAt file place false),
          c.leaf ((Lexeme.name last.text).tokenAt file
            (place + Keyword.else.spelling.utf8ByteSize + 1) false)]
      have hleaves : words leaves = Token.ofWords file place (otherWords [last]) :=
        rfl
      have helse :
          Derives elseRequired (.elseBranch false) c leaves (some (.label last.text ())) r :=
        .elsePresent (isKeyword_tokenAt _ _ .else) (derives_branch last _ (.of_behind hbehind))
      obtain ⟨wt, hwt, hthen⟩ := ih (r := words leaves ++ r)
        (Nat.le_of_eq hrungs) (.inr ⟨isKeyword_tokenAt _ _ .else, hrungs⟩)
        (offset + wordsSize rung.spelling)
      obtain ⟨hword, hnot⟩ := hfirst others (words leaves ++ r)
      rw [← hwt] at hword hnot
      obtain ⟨w, hw, hderives⟩ := derives_rung file rung offset helse hword hnot hthen
      refine ⟨w, ?_, ?_⟩
      · rw [hw, hwt, hleaves, spelling_cons, spelling_append, Token.ofWords_append,
          Token.ofWords_append]
      · rw [nested, nested_append (Nat.le_of_eq hrungs.symm), ← hrungs, List.getElem?_concat_length]
        exact hderives

theorem derives_content (file : String) (elseRequired : Bool) (c : Surroundings)
    (inner : Identifier) (rungs : List Rung) {others : List Identifier}
    (hlength : others.length ≤ rungs.length)
    (hbehind : r = [] ∨ isKeyword .else r = true ∧ others.length = rungs.length) (offset : Nat) :
    ∃ w, words w = Token.ofWords file offset (spelling rungs inner others) ∧
      Derives elseRequired .content c w (.expression (nested inner others rungs)) r := by
  obtain ⟨w, hw, hderives⟩ := derives file elseRequired c inner rungs hlength hbehind offset
  obtain ⟨t, ts, hwords, -, hkeyword⟩ := begins_spelling file rungs inner others offset
  refine ⟨w, hw, .expression ?_ hderives⟩
  rw [hw, hwords, List.cons_append, definesType, hkeyword .type (by decide), Bool.false_and]

theorem isName_of_mem_spelling {rungs : List Rung} {inner : Identifier} {others : List Identifier}
    {word : String} (h : word ∈ spelling rungs inner others) : Lexeme.IsName word := by
  simp only [spelling, otherWords, List.mem_append, List.mem_flatMap, List.mem_cons] at h
  obtain ⟨⟨condition, hasThen⟩, -, hword⟩ | rfl | ⟨other, -, hword⟩ := h
  · have hcases : word = Keyword.if.spelling ∨ word = condition.text ∨
        word = Keyword.then.spelling := by
      cases hasThen with
      | false => exact (by simpa [Rung.spelling] using hword : _ ∨ _).imp_right .inl
      | true => simpa [Rung.spelling] using hword
    obtain rfl | rfl | rfl := hcases
    · exact Lexeme.isName_spelling .if
    · exact condition.valid.name
    · exact Lexeme.isName_spelling .then
  · exact inner.valid.name
  · obtain rfl | rfl | hnil := hword
    · exact Lexeme.isName_spelling .else
    · exact other.valid.name
    · cases hnil

/-- The tokens of the text. -/
theorem ofSource_source (file : String) (rungs : List Rung) (inner : Identifier)
    (others : List Identifier) : ∃ stop, TokenStream.ofSource (source rungs inner others) file =
      ⟨Token.ofWords file 0 (spelling rungs inner others), .ok stop⟩ := by
  have hnames : ∀ w ∈ spelling rungs inner others, Lexeme.IsName w :=
    fun w => isName_of_mem_spelling
  unfold source
  cases hwords : spelling rungs inner others with
  | nil => simp [spelling] at hwords
  | cons word ws => exact TokenStream.ofSource_words file (hwords ▸ hnames)

end Ladder

/-- A statement behind which something else stands on the same line. -/
theorem parse_error_of_content {source : String} {settings : Settings} {w : List Leaf}
    {t stop : Token} {ts : List Token} {x : Stmt Unit}
    (hstream : TokenStream.ofSource source settings.file = ⟨words w ++ t :: ts, .ok stop⟩)
    (h : Derives settings.elseRequired .content .outside w x (t :: ts))
    (hkind : t.kind ≠ .semicolon ∧ t.kind ≠ .eof) (hline : t.newlineBefore = false) :
    parse source settings =
      .error (.error ⟨.unexpectedToken t.describe [.semicolon, .eof], t.span.start⟩) := by
  have hlevels : (words w ++ t :: ts).length < w.length + (ts.length + 2) := by
    rw [List.length_append, length_words, List.length_cons]
    omega
  have hstart := h.kind_mem rfl
  have hstop : Lookahead.endsStatement .eof (t :: ts) = false := by
    rw [Bool.eq_false_iff, ne_eq, Lookahead.endsStatement_cons_iff]
    simp [hkind.2, hline]
  have hcontent := h.accepted (w.length + (ts.length + 2)) (by omega)
  exact parse_of_rejects (congrArg TokenStream.tokens hstream) hlevels <|
    .statements hstart (fun heof => absurd (heof ▸ hstart) (by decide)) <|
      .unended hcontent (.terminator hkind.1 hstop)

/-! ## The main statement -/

namespace Ladder

/-- One more `else` stands a space behind the text. -/
theorem exists_ofWords_append (file : String) (rungs : List Rung) (inner : Identifier)
    (others : List Identifier) (other : Identifier) (more : List Identifier) :
    ∃ ts, Token.ofWords file 0 (spelling rungs inner (others ++ other :: more)) =
      Token.ofWords file 0 (spelling rungs inner others) ++
        (Lexeme.name Keyword.else.spelling).tokenAt file
          ((source rungs inner others).utf8ByteSize + 1) false :: ts := by
  have hsize : wordsSize (spelling rungs inner others) =
      (source rungs inner others).utf8ByteSize + 1 := by
    unfold source
    cases hwords : spelling rungs inner others with
    | nil => simp [spelling] at hwords
    | cons word ws => exact (size_intercalate word ws).symm
  rw [spelling_append, Token.ofWords_append, Nat.zero_add, hsize]
  exact ⟨_, rfl⟩

/-- Conditionals in each other on one line, with or without the word `then`, and branches for the
other case behind them. If there are as many branches as conditionals or less, then the text is
parsed to conditionals that are nested in their first branches: the innermost one has the first
branch for the other case, the next one the second, and so on, and those that are left have none. If
there are more branches, then the text is refused at the first `else` that is left over. -/
theorem parse_dangling (rungs : List Rung) (inner : Identifier) (others : List Identifier)
    (settings : Settings) :
    (others.length ≤ rungs.length → ∃ m, parse (source rungs inner others) settings = .ok m ∧
      m.bare = [.expression (nested inner others rungs)]) ∧
    (rungs.length < others.length → parse (source rungs inner others) settings =
      .error (.error ⟨.unexpectedToken Keyword.else.spelling [.semicolon, .eof],
        .ofOffset ((source rungs inner (others.take rungs.length)).utf8ByteSize + 1)
          settings.file⟩)) := by
  obtain ⟨stop, hstream⟩ := ofSource_source settings.file rungs inner others
  refine ⟨fun hlength => ?_, fun hlength => ?_⟩
  · obtain ⟨w, hw, hcontent⟩ := derives_content settings.file settings.elseRequired .outside inner
      rungs hlength (.inl rfl) 0
    have hbegin := hcontent.kind_mem rfl
    have hne {kind : TokenKind} (hkind : kind ∉ expressionStart) :
        Lookahead.kind (words w ++ []) ≠ kind := by
      rintro rfl
      exact hkind hbegin
    rw [← hw] at hstream
    have hall : Derives settings.elseRequired (.statements .eof) .outside (w ++ ([] ++ []))
        [.expression (nested inner others rungs)] [] :=
      .statement (hne (by decide)) (hne (by decide)) hcontent (.noSemicolon rfl)
        (.noStatement rfl (by decide))
    rw [List.append_nil, List.append_nil] at hall
    exact parse_of_derives hstream hall
  · obtain ⟨other, more, hothers⟩ : ∃ other more,
        others = others.take rungs.length ++ other :: more := by
      have hne : others.drop rungs.length ≠ [] := by simpa using hlength
      obtain ⟨other, more, hdrop⟩ := List.exists_cons_of_ne_nil hne
      exact ⟨other, more, by rw [← hdrop, List.take_append_drop]⟩
    have htake : (others.take rungs.length).length = rungs.length :=
      List.length_take_of_le (Nat.le_of_lt hlength)
    obtain ⟨ts, hts⟩ := exists_ofWords_append settings.file rungs inner
      (others.take rungs.length) other more
    rw [← hothers] at hts
    have helse := isKeyword_tokenAt settings.file (
      (source rungs inner (others.take rungs.length)).utf8ByteSize + 1) .else
    obtain ⟨w, hw, hcontent⟩ := derives_content settings.file settings.elseRequired .outside inner
      rungs (Nat.le_of_eq htake) (.inr ⟨(Lookahead.isKeyword_cons .else _ ts).trans helse, htake⟩) 0
    rw [hts, ← hw] at hstream
    exact parse_error_of_content hstream hcontent ⟨nofun, nofun⟩ rfl

/-- Two conditionals, with one branch for the other case and with three. -/
theorem parse_dangling_two : ∃ (rungs : List Rung) (x y : Identifier) (m : Module),
    source rungs x [y] = "if a then if b x else y" ∧
    parse "if a then if b x else y" {} = .ok m ∧
    m.bare = [.expression (.conditional (.label "a" ())
      (.conditional (.label "b" ()) (.label "x" ()) (some (.label "y" ())) ()) none ())] ∧
    parse "if a then if b x else y else y else y" {} =
      .error (.error ⟨.unexpectedToken "else" [.semicolon, .eof], ⟨31, "shell"⟩⟩) := by
  let rungs : List Rung := [⟨⟨"a", ⟨_, [], rfl, rfl, nofun⟩, rfl⟩, true⟩,
    ⟨⟨"b", ⟨_, [], rfl, rfl, nofun⟩, rfl⟩, false⟩]
  let x : Identifier := ⟨"x", ⟨_, [], rfl, rfl, nofun⟩, rfl⟩
  let y : Identifier := ⟨"y", ⟨_, [], rfl, rfl, nofun⟩, rfl⟩
  have hone : source rungs x [y] = "if a then if b x else y" := by decide +kernel
  have htwo : source rungs x [y, y] = "if a then if b x else y else y" := by decide +kernel
  have hthree : source rungs x [y, y, y] = "if a then if b x else y else y else y" := by
    decide +kernel
  obtain ⟨m, hm, hbare⟩ := (parse_dangling rungs x [y] {}).1 (by decide)
  have herror := (parse_dangling rungs x [y, y, y] {}).2 (by decide)
  rw [hone] at hm
  rw [hthree, show [y, y, y].take rungs.length = [y, y] from rfl, htwo] at herror
  exact ⟨rungs, x, y, m, hone, hm, hbare, herror⟩

end Ladder

end SurfaceGrammar

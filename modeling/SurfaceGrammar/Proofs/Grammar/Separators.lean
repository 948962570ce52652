import SurfaceGrammar.Proofs.Grammar.Completeness
import SurfaceGrammar.Proofs.Grammar.Endings
import SurfaceGrammar.Proofs.Grammar.Joining
import SurfaceGrammar.Proofs.Token.Separation

/-!
# Line breaks and semicolons between statements

Sources of one statement each can be joined with line feeds or with semicolons. Both ways the
statements are parsed one after another, unless one of them goes on with the beginning of the next
line: with a curly bracket behind a word that opens a block, a set or a map, or with the word `else`
behind a conditional without such a branch.

* `RendersAs`: a source is parsed to statements with these renderings.
* `TakesUpLine`: a statement goes on with what the next line begins with.
* `RendersAs.separated`: a statement, a separator and the statements behind it.
* `parse_intercalate`: sources that are joined in both ways.
-/

namespace SurfaceGrammar

open Lookahead

/-! ## The first token of a source -/

section Statements

variable {elseRequired : Bool} {c : Surroundings} {w : List Leaf} {body : List (Stmt Unit)}
  {t : Token} {ts : List Token}

/-- Statements begin with a semicolon or like an expression. -/
theorem Derives.first_of_statements (h : Derives elseRequired (.statements .eof) c w body [])
    (hw : words w = t :: ts) : t.kind = .semicolon ∨ t.kind ∈ expressionStart := by
  cases h with
  | emptyStatement kind _ =>
    cases hw
    exact .inl kind
  | noStatement _ _ => cases hw
  | statement _ _ content _ _ =>
    obtain ⟨l, u, rfl, hl⟩ := content.starts rfl
    cases hw
    exact .inr hl

/-- The statements behind a semicolon at the beginning. -/
theorem Derives.of_semicolon (h : Derives elseRequired (.statements .eof) c w body [])
    (hw : words w = t :: ts) (ht : t.kind = .semicolon) :
    ∃ v, words v = ts ∧ Derives elseRequired (.statements .eof) c v body [] := by
  cases h with
  | emptyStatement _ rest =>
    cases hw
    exact ⟨_, rfl, rest⟩
  | noStatement _ _ => cases hw
  | statement _ _ content _ _ =>
    obtain ⟨l, u, rfl, hl⟩ := content.starts rfl
    cases hw
    rw [← c.token_leaf l, ht] at hl
    exact absurd hl (by decide)

/-- The first token of statements stands apart, if it stands on a new line. -/
theorem StandsApart.of_statements (h : Derives elseRequired (.statements .eof) c w body [])
    (hw : words w = t :: ts) (hline : t.newlineBefore = true) : StandsApart t := by
  refine ⟨.inr hline, ?_⟩
  have hbinds : ∀ kind ∈ .semicolon :: expressionStart,
      (kind = .colon || kind.isUpdater) = false := by
    decide
  exact hbinds t.kind (List.mem_cons.mpr (h.first_of_statements hw))

/-- Statements on a new line begin with what ends the statement before them: with a semicolon or
with nothing. -/
theorem Derives.exists_terminator (h : Derives elseRequired (.statements .eof) c w body [])
    (hw : words w = t :: ts) (hline : t.newlineBefore = true) : ∃ u v, words (u ++ v) = t :: ts ∧
      Derives elseRequired (.terminator .eof) c u () (words v) ∧
      Derives elseRequired (.statements .eof) c v body [] := by
  by_cases ht : t.kind = .semicolon
  · obtain ⟨v, hv, hrest⟩ := h.of_semicolon hw ht
    exact ⟨[c.leaf t], v, congrArg (t :: ·) hv, .semicolon ht, hrest⟩
  · refine ⟨[], w, hw, .noSemicolon ?_, h⟩
    rw [hw, endsStatement_cons_iff]
    exact ⟨ht, .inr (.inr hline)⟩

end Statements

/-! ## Sources and the renderings of their statements -/

/-- There are no tokens and no statements in an empty source. -/
theorem parse_empty (settings : Settings) : ∃ m stop, parse "" settings = .ok m ∧ m.body = [] ∧
    TokenStream.ofSource "" settings.file = ⟨[], .ok stop⟩ := by
  obtain ⟨ts, stop, hstream, hts⟩ :=
    Piece.ofSource_of_recognised settings.file (.nil : Piece.Recognised false [])
  obtain rfl : ts = [] := List.map_eq_nil_iff.mp hts
  obtain ⟨m, hm, hbare⟩ := parse_of_derives (w := []) hstream (.noStatement rfl (by decide))
  exact ⟨m, stop, hm, List.map_eq_nil_iff.mp hbare, hstream⟩

/-- The source is parsed, and its statements are rendered so. -/
def RendersAs (settings : Settings) (source : String) (lines : List String) : Prop :=
  ∃ m, parse source settings = .ok m ∧ m.body.map Stmt.render = lines

namespace RendersAs

variable {settings : Settings} {source : String} {lines : List String}

theorem of_derives {w : List Leaf} {stop : Token} {body : List (Stmt Unit)}
    (hstream : TokenStream.ofSource source settings.file = ⟨words w, .ok stop⟩)
    (h : Derives settings.elseRequired (.statements .eof) .outside w body []) :
    RendersAs settings source (body.map Stmt.render) := by
  obtain ⟨m, hm, rfl⟩ := parse_of_derives hstream h
  exact ⟨m, hm, m.map_render_bare.symm⟩

theorem exists_derives (h : RendersAs settings source lines) : ∃ w stop body,
    TokenStream.ofSource source settings.file = ⟨words w, .ok stop⟩ ∧
      Derives settings.elseRequired (.statements .eof) .outside w body [] ∧
      body.map Stmt.render = lines := by
  obtain ⟨m, hm, rfl⟩ := h
  obtain ⟨w, stop, hstream, hderives⟩ := derives_of_parse hm
  exact ⟨w, stop, m.bare, hstream, hderives, m.map_render_bare⟩

/-- The statements of a source are made up of its tokens on a new line as well. -/
theorem exists_derives_onNewLine (h : RendersAs settings source lines) : ∃ v body,
    words v = ((TokenStream.ofSource source settings.file).moved 3 true).tokens ∧
      Derives settings.elseRequired (.statements .eof) .outside v body [] ∧
      body.map Stmt.render = lines := by
  obtain ⟨m, hm, rfl⟩ := h
  obtain ⟨k, stop, hk, hnone, hempty⟩ := parse_empty settings
  -- Joined to an empty source, it stands on the line after that of the semicolon.
  obtain ⟨n, whole, hn, hwhole, hbody⟩ | ⟨e, he, -⟩ := parse_joined_cases hk source
  · cases hm.symm.trans hn
    obtain ⟨w, stop', hstream, hderives⟩ := derives_of_parse hwhole
    obtain ⟨semicolon, behind, hkind, rfl, hjoined⟩ :=
      TokenStream.exists_ofSource_joined hempty source
    have hw := (TokenStream.mk.inj (hstream.symm.trans hjoined)).1
    obtain ⟨v, hv, hrest⟩ := hderives.of_semicolon hw hkind
    refine ⟨v, whole.bare, hv, hrest, ?_⟩
    rw [whole.map_render_bare, hbody, hnone, List.nil_append, List.map_map]
    exact List.map_congr_left fun x _ => x.render_mapMark _
  · cases hm.symm.trans he

/-- The tokens of a source at a later place, on a new line or not. -/
theorem exists_moved (h : RendersAs settings source lines) (count : Nat) (lineBreak : Bool) :
    ∃ v body stop, (TokenStream.ofSource source settings.file).moved count lineBreak =
        ⟨words v, .ok stop⟩ ∧
      Derives settings.elseRequired (.statements .eof) .outside v body [] ∧
      body.map Stmt.render = lines := by
  obtain ⟨w, stop, body, hstream, hderives, hlines⟩ := h.exists_derives
  obtain ⟨last, hmoved⟩ := TokenStream.exists_moved (words w) stop count lineBreak
  rw [← hstream] at hmoved
  -- The same statements are made up of tokens that stand elsewhere.
  have hsame : ∃ u body', (((TokenStream.ofSource source settings.file).moved count
      lineBreak).tokens).map Token.unplaced = (words u).map Token.unplaced ∧
      Derives settings.elseRequired (.statements .eof) .outside u body' [] ∧
      body'.map Stmt.render = lines := by
    cases lineBreak with
    | false =>
      refine ⟨w, body, ?_, hderives, hlines⟩
      rw [TokenStream.unplaced_moved _ count 0, hstream]
      exact congrArg _ (List.map_id'' Token.shift_zero _)
    | true =>
      obtain ⟨u, body', hu, hderives', hlines'⟩ := h.exists_derives_onNewLine
      exact ⟨u, body', by rw [hu, TokenStream.unplaced_moved _ count 3], hderives', hlines'⟩
  obtain ⟨u, body', hu, hderives', hlines'⟩ := hsame
  obtain ⟨v, hv, hrest⟩ := hderives'.of_unplaced hu
  exact ⟨v, body', last, by rw [hv, ← hmoved], hrest, hlines'⟩

end RendersAs

/-! ## Statements that go on with the next line -/

/-- The source is parsed to exactly one statement. -/
def IsOneStatement (settings : Settings) (source : String) : Prop :=
  ∃ m, parse source settings = .ok m ∧ m.body.length = 1

instance (settings : Settings) (source : String) : Decidable (IsOneStatement settings source) :=
  match h : parse source settings with
  | .ok m => decidable_of_iff (m.body.length = 1) (by simp [IsOneStatement, h])
  | .error e => isFalse (by simp [IsOneStatement, h])

/-- The statement `a` goes on with the beginning of `b`, if that stands on the next line: `b` begins
with a curly bracket, and an empty pair of these belongs to the statement, or `b` begins with the
word `else`, and a branch belongs to it. -/
def TakesUpLine (settings : Settings) (a b : String) : Prop :=
  ∃ t ∈ (TokenStream.ofSource b settings.file).tokens.head?,
    t.kind = .openCurly ∧ IsOneStatement settings (a ++ "\n" ++ "\x7b\x7d") ∨
      t.isKeyword .else = true ∧ IsOneStatement settings (a ++ "\n" ++ "else x")

instance (settings : Settings) (a b : String) : Decidable (TakesUpLine settings a b) :=
  inferInstanceAs (Decidable (∃ t ∈ (_ : Option Token), _))

/-- Two tokens on a new line. -/
theorem TokenStream.exists_moved_pair {ps : List Piece} {a b : Token}
    (h : Piece.Recognised false ps) (htokens : Piece.tokens ps = [a, b]) (file : String)
    (count : Nat) : ∃ t u stop,
      (ofSource (Piece.source ps) file).moved count true = ⟨[t, u], .ok stop⟩ ∧
        t.unplaced = a.onNewLine ∧ u.unplaced = b := by
  obtain ⟨ts, stop, hstream, hts⟩ := Piece.ofSource_of_recognised file h
  obtain ⟨t, us, rfl, ht, hus⟩ := List.map_eq_cons_iff.mp (hts.trans htokens)
  obtain ⟨u, vs, rfl, hu, hvs⟩ := List.map_eq_cons_iff.mp hus
  obtain rfl := List.map_eq_nil_iff.mp hvs
  rw [hstream]
  exact ⟨_, _, _, rfl, congrArg Token.onNewLine ht, hu⟩

/-- The tokens with which a source goes on on the next line. -/
theorem exists_continuation {source file : String} {ts : List Token} {stop : Token}
    (h : TokenStream.ofSource source file = ⟨ts, .ok stop⟩) : ∃ K : Continuation,
      (∃ stop', TokenStream.ofSource (source ++ "\n" ++ "\x7b\x7d") file =
        ⟨ts ++ [K.opening, K.closing], .ok stop'⟩) ∧
      ∃ stop', TokenStream.ofSource (source ++ "\n" ++ "else x") file =
        ⟨ts ++ [K.word, K.label], .ok stop'⟩ := by
  have hcurly : Piece.Recognised false [.mark .openCurly, .mark .closeCurly] :=
    .of_closed rfl (.of_closed rfl .nil)
  have hname : Lexeme.IsName "x" := ⟨'x', [], rfl, rfl, by simp⟩
  have helse : Piece.Recognised false [.word .else, .space, .name "x"] :=
    .of_word (.lexeme (Lexeme.stands_name _ hname rfl) .nil)
  obtain ⟨o, k, stop₁, hfirst, ho, hk⟩ :=
    TokenStream.exists_moved_pair hcurly rfl file (source.utf8ByteSize + 1)
  obtain ⟨e, x, stop₂, hsecond, he, hx⟩ :=
    TokenStream.exists_moved_pair helse rfl file (source.utf8ByteSize + 1)
  let K : Continuation :=
    { opening := o
      closing := k
      word := e
      label := x
      openingKind := congrArg Token.kind ho
      openingLine := congrArg Token.newlineBefore ho
      closingKind := congrArg Token.kind hk
      wordKeyword := congrArg (Token.isKeyword · .else) he
      wordLine := congrArg Token.newlineBefore he
      labelKind := congrArg Token.kind hx
      labelKeyword := congrArg Token.keyword? hx }
  have hcurlies := TokenStream.ofSource_line h (Piece.source [.mark .openCurly, .mark .closeCurly])
  have hbranch := TokenStream.ofSource_line h (Piece.source [.word .else, .space, .name "x"])
  rw [hfirst] at hcurlies
  rw [hsecond] at hbranch
  exact ⟨K, ⟨stop₁, hcurlies⟩, stop₂, hbranch⟩

/-! ## A statement and those behind a separator -/

namespace RendersAs

variable {settings : Settings} {source other text line : String} {lines : List String}
  {u v : List Leaf} {more : List (Stmt Unit)} {t stop stop' : Token}
  {ts us : List Token}

/-- The first token of a source that is not empty. -/
theorem exists_head (h : RendersAs settings source lines) (hlines : lines ≠ []) :
    ∃ t ts stop, TokenStream.ofSource source settings.file = ⟨t :: ts, .ok stop⟩ := by
  obtain ⟨w, stop, body, hstream, hderives, rfl⟩ := h.exists_derives
  cases w with
  | nil =>
    cases hderives.eq_nil_of_statements
    exact absurd rfl hlines
  | cons l w => exact ⟨l.token, words w, stop, hstream⟩

/-- A statement, what separates it from the statements behind it, and these: all of them are parsed,
or the statement goes on with the first token behind it. -/
theorem separated (hsource : RendersAs settings source [line])
    (hstream : TokenStream.ofSource source settings.file = ⟨us, .ok stop⟩)
    (htext : TokenStream.ofSource text settings.file = ⟨us ++ words (u ++ v), .ok stop'⟩)
    (hu : Derives settings.elseRequired (.terminator .eof) .outside u () (words v))
    (hv : Derives settings.elseRequired (.statements .eof) .outside v more [])
    (htokens : words (u ++ v) = t :: ts) (ht : StandsApart t) :
    RendersAs settings text (line :: more.map Stmt.render) ∨
      t.kind = .openCurly ∧ IsOneStatement settings (source ++ "\n" ++ "\x7b\x7d") ∨
      t.isKeyword .else = true ∧ IsOneStatement settings (source ++ "\n" ++ "else x") := by
  obtain ⟨w, stop, body, hstream', hderives, hline⟩ := hsource.exists_derives
  cases hstream.symm.trans hstream'
  obtain ⟨K, ⟨stop₁, hcurly⟩, ⟨stop₂, helse⟩⟩ := exists_continuation hstream
  have hlength : body.length = 1 := by
    have hlengths := congrArg List.length hline
    rwa [List.length_map] at hlengths
  obtain hwhole | ⟨-, x, body', hx, hlength', htaken⟩ :=
    hderives.statements_append K rfl hu hv htokens ht
  · rw [← words_append] at htext
    have hrenders := of_derives htext hwhole
    rw [List.map_append, hline] at hrenders
    exact .inl hrenders
  · refine .inr ?_
    have hone (other : String) (hother : ∃ stop, TokenStream.ofSource (source ++ "\n" ++ other)
        settings.file = ⟨words (w ++ x), .ok stop⟩) :
        IsOneStatement settings (source ++ "\n" ++ other) := by
      obtain ⟨stop, hother⟩ := hother
      obtain ⟨m, hm, hbare⟩ := parse_of_derives hother htaken
      have hbody := congrArg List.length hbare
      rw [Module.bare, List.length_map, hlength', hlength] at hbody
      exact ⟨m, hm, hbody⟩
    rw [words_append] at hone
    unfold Continuation.after at hx
    split at hx
    · next hkind =>
      rw [← Option.some.inj hx] at hone
      exact .inl ⟨hkind, hone _ ⟨stop₁, hcurly⟩⟩
    · split at hx
      · next hkeyword =>
        rw [← Option.some.inj hx] at hone
        exact .inr ⟨hkeyword, hone _ ⟨stop₂, helse⟩⟩
      · cases hx

/-- A statement, and those on the next line. -/
theorem line_feed (hsource : RendersAs settings source [line])
    (hother : RendersAs settings other lines) (hlines : lines ≠ [])
    (hno : ¬TakesUpLine settings source other) :
    RendersAs settings (source ++ "\n" ++ other) (line :: lines) := by
  obtain ⟨t, ts, stop, hother'⟩ := hother.exists_head hlines
  obtain ⟨v, more, stop', hmoved, hv, rfl⟩ := hother.exists_moved (source.utf8ByteSize + 1) true
  -- The first token of the next line ends the statement before it.
  have hv' : words v = (t.shift (source.utf8ByteSize + 1)).onNewLine ::
      ts.map (Token.shift (source.utf8ByteSize + 1)) := by
    rw [hother'] at hmoved
    exact (TokenStream.mk.inj hmoved).1.symm
  obtain ⟨u, v', hwords, hu, hrest⟩ := hv.exists_terminator hv' rfl
  obtain ⟨w, stop, body, hstream, -⟩ := hsource.exists_derives
  have htext := TokenStream.ofSource_line hstream other
  rw [hmoved, hv', ← hwords] at htext
  obtain hrenders | ⟨hkind, hone⟩ | ⟨hkeyword, hone⟩ :=
    hsource.separated hstream htext hu hrest hwords (.of_statements hv hv' rfl)
  · exact hrenders
  · exact absurd ⟨t, by rw [hother']; rfl, .inl ⟨hkind, hone⟩⟩ hno
  · exact absurd ⟨t, by rw [hother']; rfl, .inr ⟨hkeyword, hone⟩⟩ hno

/-- A statement without comments, and those behind a semicolon. -/
theorem semicolon (hsource : RendersAs settings source [line])
    (hfree : FreeOfComments source settings.file) (hother : RendersAs settings other lines) :
    RendersAs settings (source ++ ";" ++ other) (line :: lines) := by
  obtain ⟨v, more, stop', hmoved, hv, rfl⟩ := hother.exists_moved (source.utf8ByteSize + 1) false
  obtain ⟨w, stop, body, hstream, -⟩ := hsource.exists_derives
  obtain ⟨s, hs, htext⟩ := TokenStream.exists_ofSource_semicolon hstream hfree other
  rw [hmoved] at htext
  have hapart : StandsApart s := ⟨.inl hs, by rw [hs]; rfl⟩
  obtain hrenders | ⟨hkind, -⟩ | ⟨hkeyword, -⟩ := hsource.separated
    (u := [Surroundings.outside.leaf s]) hstream htext (.semicolon hs) hv rfl hapart
  · exact hrenders
  · cases hs.symm.trans hkind
  · cases hs.symm.trans (Token.kind_of_keyword? (Token.isKeyword_iff.mp hkeyword))

end RendersAs

/-! ## Joining sources -/

/-- The tokens of a source with another one on the next line begin with its own. -/
theorem head?_tokens_line_feed {settings : Settings} {source line : String}
    (h : RendersAs settings source [line]) (other : String) :
    (TokenStream.ofSource (source ++ "\n" ++ other) settings.file).tokens.head? =
      (TokenStream.ofSource source settings.file).tokens.head? := by
  obtain ⟨t, ts, stop, hstream⟩ := h.exists_head (by simp)
  rw [TokenStream.ofSource_line hstream, hstream]
  rfl

/-- One source or more that are joined in both ways. The induction is on the list; the first token
of what is joined with line feeds is that of the first source. -/
theorem exists_renders_intercalate {settings : Settings} {a : String} {sources : List String}
    (hsources : ∀ source ∈ a :: sources, FreeOfComments source settings.file ∧
      IsOneStatement settings source)
    (hlines : (a :: sources).IsChain fun a b => ¬TakesUpLine settings a b) :
    ∃ lines, lines.length = sources.length + 1 ∧
      RendersAs settings ("\n".intercalate (a :: sources)) lines ∧
      RendersAs settings (";".intercalate (a :: sources)) lines ∧
      (TokenStream.ofSource ("\n".intercalate (a :: sources)) settings.file).tokens.head? =
        (TokenStream.ofSource a settings.file).tokens.head? := by
  induction sources generalizing a with
  | nil =>
    obtain ⟨-, m, hm, hone⟩ := hsources a List.mem_cons_self
    have ha : RendersAs settings a (m.body.map Stmt.render) := ⟨m, hm, rfl⟩
    exact ⟨m.body.map Stmt.render, by rw [List.length_map, hone]; rfl, by simpa using ha,
      by simpa using ha, by simp⟩
  | cons b sources ih =>
    obtain ⟨⟨hfree, m, hm, hone⟩, hrest⟩ := List.forall_mem_cons.mp hsources
    obtain ⟨hno, htail⟩ := List.isChain_cons_cons.mp hlines
    obtain ⟨lines, hlength, hfeeds, hsemicolons, hhead⟩ := ih hrest htail
    obtain ⟨line, hline⟩ : ∃ line, m.body.map Stmt.render = [line] :=
      List.length_eq_one_iff.mp (by rw [List.length_map, hone])
    have ha : RendersAs settings a [line] := ⟨m, hm, hline⟩
    have hne : lines ≠ [] := List.ne_nil_of_length_eq_add_one hlength
    have hno' : ¬TakesUpLine settings a ("\n".intercalate (b :: sources)) := by
      rwa [TakesUpLine, hhead]
    refine ⟨line :: lines, congrArg Nat.succ hlength, ?_, ?_, ?_⟩
    · rw [String.intercalate_cons_cons]
      exact ha.line_feed hfeeds hne hno'
    · rw [String.intercalate_cons_cons]
      exact ha.semicolon hfree hsemicolons
    · rw [String.intercalate_cons_cons]
      exact head?_tokens_line_feed ha _

/-- Sources without comments, of one statement each, may be joined with line feeds or with
semicolons, unless a statement goes on with the beginning of the next line. Both ways they are
parsed, to as many statements, and the modules look the same. -/
theorem parse_intercalate {settings : Settings} {sources : List String}
    (hsources : ∀ source ∈ sources, FreeOfComments source settings.file ∧
      IsOneStatement settings source)
    (hlines : sources.IsChain fun a b => ¬TakesUpLine settings a b) :
    ∃ m n, parse ("\n".intercalate sources) settings = .ok m ∧
      parse (";".intercalate sources) settings = .ok n ∧ m.render = n.render ∧
      m.body.length = sources.length ∧ n.body.length = sources.length := by
  have hrenders : ∃ lines, lines.length = sources.length ∧
      RendersAs settings ("\n".intercalate sources) lines ∧
      RendersAs settings (";".intercalate sources) lines := by
    cases sources with
    | nil =>
      obtain ⟨m, -, hm, hnone, -⟩ := parse_empty settings
      have hempty : RendersAs settings "" [] := ⟨m, hm, by rw [hnone]; rfl⟩
      exact ⟨[], rfl, by simpa using hempty, by simpa using hempty⟩
    | cons a sources =>
      obtain ⟨lines, hlength, hfeeds, hsemicolons, -⟩ := exists_renders_intercalate hsources hlines
      exact ⟨lines, hlength, hfeeds, hsemicolons⟩
  obtain ⟨lines, hlength, ⟨m, hm, rfl⟩, n, hn, hsame⟩ := hrenders
  have hlengths := congrArg List.length hsame
  simp only [List.length_map] at hlength hlengths
  refine ⟨m, n, hm, hn, ?_, hlength, hlengths.trans hlength⟩
  rw [Module.render, Module.render, hsame]

/-- A word that opens blocks, but not in front of the label on the next line, and a conditional. -/
theorem parse_intercalate_words :
    let sources := ["do", "x", "\x7b\x7d", "if a b", "-1"]
    (∀ source ∈ sources, FreeOfComments source "shell" ∧ IsOneStatement {} source) ∧
      sources.IsChain (fun a b => ¬TakesUpLine {} a b) ∧
      ∃ m n, parse ("\n".intercalate sources) {} = .ok m ∧
        parse (";".intercalate sources) {} = .ok n ∧ m.render = n.render ∧
        m.body.length = sources.length ∧ n.body.length = sources.length := by
  intro sources
  have hsources : ∀ source ∈ sources,
      FreeOfComments source "shell" ∧ IsOneStatement {} source := by
    decide +kernel
  have hlines : sources.IsChain (fun a b => ¬TakesUpLine {} a b) := by decide +kernel
  exact ⟨hsources, hlines, parse_intercalate hsources hlines⟩

/-- A line break between statements is not always like a semicolon: `do` opens a block with the
curly brackets on the next line, and in front of a semicolon it is a label. -/
theorem not_forall_parse_intercalate : ¬∀ (settings : Settings) (sources : List String),
    (∀ source ∈ sources, '\n' ∉ source.toList ∧ FreeOfComments source settings.file ∧
      IsOneStatement settings source) →
    ∃ m n, parse ("\n".intercalate sources) settings = .ok m ∧
      parse (";".intercalate sources) settings = .ok n ∧ m.render = n.render := by
  intro hall
  obtain ⟨m, n, hm, hn, hrender⟩ := hall {} ["do", "\x7b\x7d"] (by decide +kernel)
  have hdiffer : (parse "do\n\x7b\x7d" {}).toOption.map Module.render ≠
      (parse "do;\x7b\x7d" {}).toOption.map Module.render := by
    decide +kernel
  have hm' : parse "do\n\x7b\x7d" {} = .ok m := hm
  have hn' : parse "do;\x7b\x7d" {} = .ok n := hn
  rw [hm', hn'] at hdiffer
  exact hdiffer (congrArg some hrender)

end SurfaceGrammar

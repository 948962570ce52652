import SurfaceGrammar.Proofs.Grammar.Canonical
import SurfaceGrammar.Proofs.Token.Joins

/-!
# Literals are read back

The text with which a literal is shown spells the literal again. It is a single token, and a parse
of it gives a single statement with the same value, whatever characters a text holds and to the last
bit of a number.

* `Literal.tokenize_source`: the token of the text of a literal.
* `Literal.exists_derives`: this token makes up a source with one statement.
* `Module.exists_body_of_bare`: a module whose only statement is a literal.
* `Literal.parse_source`: the text of a literal is parsed to the literal and shown again.
-/

namespace SurfaceGrammar

/-! ## The token of a literal -/

/-- The text of a literal is a single token, which takes all of it. -/
theorem Literal.tokenize_source {value : Literal} (h : value.IsFinite) (file : String) :
    tokenize value.source file = .ok
      [(Lexeme.literal value).tokenAt file 0 false,
        { kind := .eof
          value := "EOF"
          span := ⟨.ofOffset value.source.utf8ByteSize file,
            .ofOffset value.source.utf8ByteSize file⟩
          newlineBefore := false }] := by
  have hstart : Scanner.ofSource value.source =
      ⟨(Lexeme.literal value).text ++ [], 0, false, false⟩ := by
    rw [Lexeme.text_literal, List.append_nil]
    rfl
  have hstands : (Lexeme.literal value).Stands false [] := Lexeme.stands_literal h rfl
  obtain ⟨c, text, htext, hnone, -⟩ := id hstands
  have hskip : Scanner.skipTrivia ⟨(Lexeme.literal value).text ++ [], 0, false, false⟩ = _ :=
    Scanner.skipTrivia_of_none (by rw [htext, hnone])
  have hscan : Scanner.scan file ⟨(Lexeme.literal value).text ++ [], 0, false, false⟩ = _ :=
    Scanner.scan_of_stands file (by rw [hskip]) (by rw [hskip]; exact hstands)
  rw [hskip] at hscan
  have hend : Scanner.scan file
      ⟨[], 0 + Utf8.size (Lexeme.literal value).text, false,
        (Lexeme.literal value).token.endsValue⟩ = .ended _ _ :=
    Scanner.scan_eq_ended_iff.mpr ⟨by rw [Scanner.skipTrivia_of_none rfl], rfl, rfl⟩
  refine tokenize_eq_ok_iff.mpr ⟨[_], _, ?_, rfl⟩
  rw [TokenStream.ofSource, hstart, TokenStream.ofScanner_of_token hscan,
    TokenStream.ofScanner_of_ended hend, Scanner.skipTrivia_of_none rfl]
  simp [Scanner.endToken, Lexeme.text_literal, Utf8.size_toList]

/-! ## The tree of a literal -/

section Derives

variable {value : Literal}

/-- A literal spells no keyword but a truth value. -/
theorem Lexeme.isKeyword_literal (value : Literal) {keyword : Keyword} (htrue : keyword ≠ .true)
    (hfalse : keyword ≠ .false) : (literal value).token.isKeyword keyword = false := by
  match value with
  | .number _ | .string _ | .char _ => rfl
  | .boolean true => exact decide_eq_false fun h => htrue (Option.some.inj h).symm
  | .boolean false => exact decide_eq_false fun h => hfalse (Option.some.inj h).symm

/-- The token of a literal makes up a source with one statement. -/
theorem Literal.exists_derives (h : value.IsFinite) (elseRequired : Bool) :
    ∃ w, words w = Piece.tokens [.lexeme (.literal value)] ∧
      Derives elseRequired (.statements .eof) .outside w [.expression (.literal value ())] [] := by
  obtain ⟨w, hw, hexpr⟩ : Yields elseRequired (.expr .default) .outside
      [.lexeme (.literal value)] (.literal value ()) [] :=
    .expr_of_primary (stops_of_isPause rfl) (.literal h)
  have hwords : words w ++ [] = [(Lexeme.literal value).token] := by
    rw [hw]
    rfl
  have hno {keyword : Keyword} (htrue : keyword ≠ .true) (hfalse : keyword ≠ .false) :=
    Lexeme.isKeyword_literal value htrue hfalse
  have hlabel : Lookahead.bindsLabel (words w ++ []) = false := by
    simp [hwords, Lookahead.bindsLabel, TokenKind.isUpdater]
  have hplain : Derives elseRequired (.statementExpr false) .outside w (.literal value ()) [] :=
    .plain hlabel (by simp [hwords, hno]) hexpr
  have hcontent : Derives elseRequired .content .outside w (.expression (.literal value ())) [] :=
    .expression (by simp [hwords, Lookahead.definesType, hno]) hplain
  have hkind : Lookahead.kind (words w ++ []) ≠ .eof := by
    intro heof
    have hmem := hcontent.kind_mem rfl
    rw [heof] at hmem
    exact absurd hmem (by decide)
  refine ⟨w ++ ([] ++ []), by simpa using hw, ?_⟩
  exact .statement hkind hkind hcontent (.noSemicolon rfl) (.noStatement rfl (by decide))

end Derives

/-- A literal is the only node of a module that is one without its spans. -/
theorem Module.exists_body_of_bare {m : Module} {value : Literal}
    (h : m.bare = [.expression (.literal value ())]) :
    ∃ span, m.body = [.expression (.literal value span)] := by
  obtain ⟨s, hbody, hs⟩ := List.map_eq_singleton_iff.mp h
  cases s with
  | typeDefinition => cases hs
  | expression e =>
    cases e with
    | literal value' span =>
      cases hs
      exact ⟨span, hbody⟩
    | _ => cases hs

/-! ## Reading a literal back -/

/-- The text with which a literal is shown is a single token of the kind of the literal, which takes
the whole text. With all settings it is parsed to one statement that holds the same value, a number
with the same bits, and this module is shown as the same text again. -/
theorem Literal.parse_source {value : Literal} (h : value.IsFinite) (settings : Settings) :
    (∃ t stop, tokenize value.source settings.file = .ok [t, stop] ∧ stop.kind = .eof ∧
      t.kind = (Lexeme.literal value).kind ∧
      t.span = ⟨⟨0, settings.file⟩, .ofOffset value.source.utf8ByteSize settings.file⟩) ∧
    ∃ m span, parse value.source settings = .ok m ∧
      m.body = [.expression (.literal value span)] ∧ m.render = value.source := by
  constructor
  · refine ⟨_, _, tokenize_source h settings.file, rfl, rfl, ?_⟩
    simp [Lexeme.tokenAt, Lexeme.text_literal, Utf8.size_toList]
    rfl
  · obtain ⟨w, hw, hderives⟩ := exists_derives h settings.elseRequired
    have hrecognised : Piece.Recognised false [.lexeme (Lexeme.literal value)] :=
      .lexeme (Lexeme.stands_literal h rfl) .nil
    have hsource : Piece.source [.lexeme (Lexeme.literal value)] = value.source := by
      simp [Piece.source, Lexeme.text_literal]
    obtain ⟨m, hm, hbare⟩ := Piece.parse_of_derives hrecognised hw hderives
    obtain ⟨span, hbody⟩ := Module.exists_body_of_bare hbare
    refine ⟨m, span, hsource ▸ hm, hbody, ?_⟩
    rw [Module.render, hbody]
    rfl

/-- A text of quotes, a backslash, a control and a line separator. -/
theorem Literal.parse_source_quotes :
    let value : Literal := .string "'\"\\\x01\u2028"
    value.IsFinite ∧ value.source = "\"'\\\"\\\\\\x01\u2028\"" ∧
      (∃ t stop, tokenize value.source "input" = .ok [t, stop] ∧ stop.kind = .eof ∧
        t.kind = (Lexeme.literal value).kind ∧
        t.span = ⟨⟨0, "input"⟩, .ofOffset value.source.utf8ByteSize "input"⟩) ∧
      ∃ m span, parse value.source { file? := "input" } = .ok m ∧
        m.body = [.expression (.literal value span)] ∧ m.render = value.source := by
  intro value
  have h : value.IsFinite := trivial
  exact ⟨h, by decide +kernel, Literal.parse_source h { file? := "input" }⟩

end SurfaceGrammar

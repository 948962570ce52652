import SurfaceGrammar.Proofs.Token.Samples
import SurfaceGrammar.Proofs.Token.Shift

/-!
# Sources one behind the other

The tokens of a source stay the same if a new line is put behind it, whatever comes on that line:
white space with a line feed ends a line comment and every token. What comes behind the line feed
is read as a source of its own, at a later place.

* `Lexeme.tokenAt`: the token of a lexeme at a place.
* `Scanner.scan_of_stands`: the next token, if a lexeme stands behind a gap.
* `Scanner.Reads.before_line`: the tokens of a source and a lexeme on a new line.
* `TokenStream.ofScanner_before_line`: the tokens of a source with a line behind it, on which a
  lexeme stands.
* `TokenStream.ofScanner_line`: the tokens of a source behind a line feed.
-/

namespace SurfaceGrammar

/-! ## White space behind a gap -/

/-- A line comment ends with the white space behind it, if there is a line feed in it. -/
theorem IsOpen.append_line {gap line : List Char} (h : IsOpen gap) (hline : IsBlank line)
    (hfeed : '\n' ∈ line) : IsTrivia (gap ++ line) := by
  obtain ⟨front, body, hfront, hbody, rfl⟩ := h
  obtain ⟨first, rest, rfl, hfirst⟩ := List.eq_append_cons_of_mem hfeed
  have hcomment : '\n' ∉ body ++ first := by
    simp only [List.mem_append, not_or]
    exact ⟨hbody, hfirst⟩
  have hrest : IsTrivia rest := .of_blank fun c hc => hline.2 c (by simp [hc])
  have hclosed := hfront.append (.line hcomment hrest)
  simpa only [List.cons_append, List.append_assoc] using hclosed

/-! ## Lexemes at a place -/

/-- The token of a lexeme at a place. -/
def Lexeme.tokenAt (l : Lexeme) (file : String) (offset : Nat) (line : Bool) : Token where
  kind := l.kind
  value := l.value
  span := ⟨Position.ofOffset offset file, Position.ofOffset (offset + Utf8.size l.text) file⟩
  newlineBefore := line

namespace Scanner

variable {file : String} {scanner last stay : Scanner} {ts : List Token} {stop : Token}
  {l : Lexeme} {gap back : List Char}

/-- The next token, if a lexeme stands behind the white space and the comments. -/
theorem scan_of_stands (file : String) (hrest : scanner.skipTrivia.rest = l.text ++ back)
    (hl : l.Stands scanner.skipTrivia.afterValue back) :
    scanner.scan file =
      .token (l.tokenAt file scanner.skipTrivia.offset scanner.skipTrivia.lineBreak)
        ⟨back, scanner.skipTrivia.offset + Utf8.size l.text, false, l.token.endsValue⟩ := by
  obtain ⟨c, text, htext, -, hrecognise⟩ := hl
  refine scan_eq_token_iff.mpr ⟨c, text, l, hrest.trans htext, hrecognise, ?_⟩
  unfold emit
  rw [hrest, List.drop_left]
  rfl

/-- What is left behind the last token of a source is white space and comments, and a line feed ends
the last of these. -/
theorem isTrivia_rest_line (hend : last.skipTrivia.rest = []) (hgap : IsBlank gap)
    (hfeed : '\n' ∈ gap) : IsTrivia (last.rest ++ gap) := by
  have hrest : last.rest = last.gap := by
    have hcut := (skipTrivia_of_gap last).1
    rwa [hend, List.append_nil] at hcut
  rw [hrest]
  rcases gap_cases last with htrivia | ⟨hopen, -⟩
  · exact htrivia.append (.of_blank hgap.2)
  · exact hopen.append_line hgap hfeed

/-- Behind the last token of a source a scanner passes what is left, and then a new line. -/
theorem skipTrivia_before_line (hend : last.skipTrivia.rest = []) (hgap : IsBlank gap)
    (hfeed : '\n' ∈ gap) (back : List Char) :
    (last.before (gap ++ back)).skipTrivia =
      skipTrivia ⟨back, last.size + Utf8.size gap, true, false⟩ := by
  have hcontains : (last.rest ++ gap).contains '\n' = true := by
    simp [hfeed]
  have hskip := skipTrivia_append (isTrivia_rest_line hend hgap hfeed) back last.offset
    last.lineBreak last.afterValue
  rw [hcontains, Bool.or_true, Bool.not_true, Bool.and_false, Utf8.size_append,
    ← Nat.add_assoc, List.append_assoc] at hskip
  exact hskip

/-- The tokens of a source and a lexeme on a new line. -/
theorem Reads.before_line (h : scanner.Reads file ts last)
    (hend : last.scan file = .ended stop stay) (hgap : IsBlank gap) (hfeed : '\n' ∈ gap)
    (hl : l.Stands false back) :
    (scanner.before (gap ++ (l.text ++ back))).Reads file
      (ts ++ [l.tokenAt file (scanner.size + Utf8.size gap) true])
      ⟨back, scanner.size + Utf8.size gap + Utf8.size l.text, false, l.token.endsValue⟩ := by
  have htext : Trivia.take? (l.text ++ back) = none := by
    obtain ⟨c, text, htext, hnone, -⟩ := hl
    rw [htext, hnone]
  have hskip := (skipTrivia_before_line (scan_eq_ended_iff.mp hend).1 hgap hfeed
    (l.text ++ back)).trans (skipTrivia_of_none htext)
  have hscan := scan_of_stands file (by rw [hskip]) (by rw [hskip]; exact hl)
  rw [hskip, h.size_eq] at hscan
  have hapart := Lexeme.beginsApart_of_blank (hgap.begins (l.text ++ back))
  exact (h.before hapart).trans (.step hscan (.refl _))

end Scanner

/-! ## Streams -/

namespace TokenStream

variable {file : String} {ts : List Token} {stop : Token}

/-- The tokens of a text, and then a lexeme on a new line and what is read behind it. -/
theorem ofScanner_before_line {scanner : Scanner} {gap back : List Char} {l : Lexeme}
    (h : ofScanner file scanner = ⟨ts, .ok stop⟩) (hgap : IsBlank gap) (hfeed : '\n' ∈ gap)
    (hl : l.Stands false back) :
    ∃ behind, behind = ofScanner file
        ⟨back, scanner.size + Utf8.size gap + Utf8.size l.text, false, l.token.endsValue⟩ ∧
      ofScanner file (scanner.before (gap ++ (l.text ++ back))) =
        ⟨ts ++ l.tokenAt file (scanner.size + Utf8.size gap) true :: behind.tokens,
          behind.ending⟩ := by
  obtain ⟨last, t, stay, hreads, hscan⟩ := exists_scan_ended h
  refine ⟨_, rfl, ?_⟩
  rw [ofScanner_of_reads (hreads.before_line hscan hgap hfeed hl)]
  simp

/-- A source behind a line feed. -/
theorem ofScanner_line (source file : String) (offset : Nat) :
    ofScanner file ⟨'\n' :: source.toList, offset, false, false⟩ =
      ((ofSource source file).shift (offset + 1)).onNewLine := by
  have htake : Trivia.take? ('\n' :: source.toList) = some ['\n'] :=
    Trivia.take?_eq_some_iff.mpr (.inl ⟨'\n', source.toList, rfl, isWhitespace_newline, rfl⟩)
  have hskip : (⟨'\n' :: source.toList, offset, false, false⟩ : Scanner).skipTrivia =
      ((Scanner.ofSource source).shift (offset + 1)).onNewLine.skipTrivia := by
    rw [Scanner.skipTrivia_of_some htake]
    simp only [Scanner.skip, Scanner.ofSource, Scanner.shift, Scanner.onNewLine, Nat.zero_add]
    rfl
  rw [ofScanner_congr (Scanner.scan_of_skipTrivia hskip), ofScanner_onNewLine, ofScanner_shift]
  rfl

end TokenStream

end SurfaceGrammar

import SurfaceGrammar.Proofs.Token.Spaced
import SurfaceGrammar.Proofs.Token.Woven

/-!
# Sources with a line break or a semicolon between them

With a line feed or a semicolon between two sources, the tokens of the first one are followed by
those of the second one at later places. A line feed shows in the first token of the second source.
A semicolon is a token of its own, if no comment that stands open takes it in.

* `FreeOfComments`: only white space stands between the tokens of a source.
* `TokenStream.ofSource_line`: the tokens of two sources on two lines.
* `TokenStream.exists_ofSource_semicolon`: the tokens of two sources with a semicolon between them.
-/

namespace SurfaceGrammar

/-! ## Sources without comments -/

/-- Between the tokens of the source, before the first and behind the last one there is nothing but
white space. -/
def FreeOfComments (source file : String) : Prop :=
  (∀ segment ∈ (Woven.ofSource source file).segments, ∀ c ∈ segment.gap, isWhitespace c = true) ∧
    ∀ c ∈ (Woven.ofSource source file).last, isWhitespace c = true

instance (source file : String) : Decidable (FreeOfComments source file) :=
  decidable_of_iff (((Woven.ofSource source file).segments.all fun segment =>
    segment.gap.all isWhitespace) && (Woven.ofSource source file).last.all isWhitespace)
    (by simp [FreeOfComments])

namespace Scanner

variable {file : String} {scanner last stay : Scanner} {ts : List Token} {stop : Token}

/-- A scanner at the beginning of a source with a text and another source behind it. -/
theorem ofSource_append_append (source text other : String) :
    ofSource (source ++ text ++ other) =
      (ofSource source).before (text.toList ++ other.toList) := by
  simp [ofSource, before]

/-- The text behind the last token is what the scanner has left there. -/
theorem Reads.last_cut (h : scanner.Reads file ts last) (hend : last.scan file = .ended stop stay) :
    (scanner.cut file).last = last.rest := by
  induction h with
  | refl => rw [cut_of_ended hend]
  | step head _ ih =>
    obtain ⟨c, own, -, hcut, -⟩ := exists_text_of_scan head
    rw [cut_of_token head hcut]
    exact ih hend

/-- A scanner in front of what is left of a source and a lexeme behind that. -/
theorem scan_before_spaced (file : String) (hrest : ∀ c ∈ last.rest, isWhitespace c = true)
    {x : Spaced} (hgap : ∀ c ∈ x.gap, isWhitespace c = true) {back : List Char}
    (hl : ∀ afterValue, x.lexeme.Stands afterValue back) :
    (last.before (x.gap ++ (x.lexeme.text ++ back))).scan file =
      .token (x.lexeme.tokenAt file (last.size + Utf8.size x.gap)
          (last.lineBreak || (last.rest ++ x.gap).contains '\n'))
        ⟨back, last.size + Utf8.size x.gap + Utf8.size x.lexeme.text, false,
          x.lexeme.token.endsValue⟩ := by
  have htext : Trivia.take? (x.lexeme.text ++ back) = none := by
    obtain ⟨c, text, htext, hnone, -⟩ := hl false
    rw [htext, hnone]
  have hblank : IsTrivia (last.rest ++ x.gap) :=
    .append (.of_blank hrest) (.of_blank hgap)
  have hskip := skipTrivia_of_isTrivia hblank htext last.offset last.lineBreak last.afterValue
  rw [List.append_assoc, Utf8.size_append, ← Nat.add_assoc] at hskip
  change (last.before (x.gap ++ (x.lexeme.text ++ back))).skipTrivia = _ at hskip
  have hscan := scan_of_stands file (congrArg Scanner.rest hskip) (hl _)
  rw [hskip] at hscan
  exact hscan

end Scanner

/-! ## Two sources -/

namespace TokenStream

variable {source file : String} {ts : List Token} {stop : Token}

/-- The tokens of a source, and those of another one on the next line. -/
theorem ofSource_line (h : ofSource source file = ⟨ts, .ok stop⟩) (other : String) :
    ofSource (source ++ "\n" ++ other) file =
      ⟨ts ++ ((ofSource other file).moved (source.utf8ByteSize + 1) true).tokens,
        ((ofSource other file).moved (source.utf8ByteSize + 1) true).ending⟩ := by
  obtain ⟨last, t, stay, hreads, hscan⟩ := exists_scan_ended h
  have hsize : last.size = source.utf8ByteSize :=
    hreads.size_eq.trans (Scanner.size_ofSource source)
  have hbefore : (Scanner.ofSource (source ++ "\n" ++ other)).Reads file ts
      (last.before ('\n' :: other.toList)) := by
    rw [Scanner.ofSource_append_append]
    exact hreads.before ⟨'\n', other.toList, rfl, by decide⟩
  have hblank : IsBlank ['\n'] := ⟨by decide, by simpa using isWhitespace_newline⟩
  have hskip : (last.before ('\n' :: other.toList)).skipTrivia =
      Scanner.skipTrivia ⟨other.toList, source.utf8ByteSize + 1, true, false⟩ := by
    rw [← hsize]
    exact Scanner.skipTrivia_before_line (Scanner.scan_eq_ended_iff.mp hscan).1
      hblank List.mem_cons_self other.toList
  rw [ofSource, ofScanner_of_reads hbefore, ofScanner_congr (Scanner.scan_of_skipTrivia hskip),
    ofScanner_moved]

/-- The tokens of a source without comments, a semicolon, and the tokens of another source. -/
theorem exists_ofSource_semicolon (h : ofSource source file = ⟨ts, .ok stop⟩)
    (hfree : FreeOfComments source file) (other : String) :
    ∃ semicolon, semicolon.kind = .semicolon ∧ ofSource (source ++ ";" ++ other) file =
      ⟨ts ++ semicolon :: ((ofSource other file).moved (source.utf8ByteSize + 1) false).tokens,
        ((ofSource other file).moved (source.utf8ByteSize + 1) false).ending⟩ := by
  obtain ⟨last, t, stay, hreads, hscan⟩ := exists_scan_ended h
  have hsize : last.size = source.utf8ByteSize :=
    hreads.size_eq.trans (Scanner.size_ofSource source)
  have hbefore : (Scanner.ofSource (source ++ ";" ++ other)).Reads file ts
      (last.before (';' :: other.toList)) := by
    rw [Scanner.ofSource_append_append]
    exact hreads.before ⟨';', other.toList, rfl, by decide⟩
  have hrest := hfree.2
  rw [Woven.ofSource, hreads.last_cut hscan] at hrest
  obtain ⟨semicolon, hkind, hnext⟩ : ∃ semicolon, semicolon.kind = .semicolon ∧
      (last.before (';' :: other.toList)).scan file =
        .token semicolon ⟨other.toList, last.size + 1, false, false⟩ :=
    ⟨_, rfl, Scanner.scan_before_spaced file hrest (x := ⟨[], .mark .semicolon⟩)
      (List.forall_mem_nil _) fun afterValue => Lexeme.stands_closed afterValue other.toList rfl⟩
  refine ⟨semicolon, hkind, ?_⟩
  rw [ofSource, ofScanner_of_reads hbefore, ofScanner_of_token hnext, hsize, ofScanner_moved]

/-! ## Tokens at a later place -/

/-- Besides their places, the tokens of a stream are the same however much later they stand. -/
theorem unplaced_moved (stream : TokenStream) (count count' : Nat) (lineBreak : Bool) :
    (stream.moved count lineBreak).tokens.map Token.unplaced =
      (stream.moved count' lineBreak).tokens.map Token.unplaced := by
  have hshift (ts : List Token) (count : Nat) :
      (ts.map (Token.shift count)).map Token.unplaced = ts.map Token.unplaced := by
    simp [Function.comp_def, Token.unplaced, Token.shift]
  obtain ⟨tokens, ending⟩ := stream
  cases lineBreak with
  | false => exact (hshift tokens count).trans (hshift tokens count').symm
  | true =>
    cases tokens with
    | nil => cases ending <;> rfl
    | cons t tokens =>
      exact congrArg (t.onNewLine.unplaced :: ·)
        ((hshift tokens count).trans (hshift tokens count').symm)

end TokenStream

end SurfaceGrammar

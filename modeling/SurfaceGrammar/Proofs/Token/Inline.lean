import SurfaceGrammar.Proofs.Token.Separation

/-!
# Sources on one line

A source without line feeds and comments can stand in the middle of a line. What stands behind it
is not taken in by a comment, and no line feed of its own shows in a token. So its tokens are the
same wherever it stands, and a lexeme right behind it or behind white space is the next token.

* `Inline`: sources without line feeds and comments.
* `TokenStream.behind`: a stream with tokens before it.
* `TokenStream.ofScanner_written`: the tokens of lexemes, and those of the text behind them.
* `Scans`: texts with the same tokens wherever they stand in front of a lexeme that does not go on
  with them.
* `Scans.inline`, `Scans.name`, `Scans.joined`: sources on one line, names, and two texts with a
  lexeme between them.
-/

namespace SurfaceGrammar

/-- The source takes up one line, and there are no comments in it. -/
structure Inline (source file : String) : Prop where
  line : '\n' ∉ source.toList
  free : FreeOfComments source file

instance (source file : String) : Decidable (Inline source file) :=
  decidable_of_iff ('\n' ∉ source.toList ∧ FreeOfComments source file)
    ⟨fun h => ⟨h.1, h.2⟩, fun h => ⟨h.line, h.free⟩⟩

namespace Scanner

variable {file : String} {scanner last : Scanner} {ts : List Token}

/-- With more bytes before it a scanner reads the same tokens at later places. -/
theorem Reads.shift (count : Nat) (h : scanner.Reads file ts last) :
    (scanner.shift count).Reads file (ts.map (Token.shift count)) (last.shift count) := by
  induction h with
  | refl => exact .refl _
  | step head _ ih => exact .step (by rw [scan_shift, head]; rfl) ih

/-- In a text without line feeds no token stands on a new line. -/
theorem Reads.inline (h : scanner.Reads file ts last) (hfeed : '\n' ∉ scanner.rest)
    (hline : scanner.lineBreak = false) :
    (∀ t ∈ ts, t.newlineBefore = false) ∧ '\n' ∉ last.rest ∧ last.lineBreak = false := by
  induction h with
  | refl => exact ⟨nofun, hfeed, hline⟩
  | @step scanner next _ t ts head _ ih =>
    obtain ⟨hgap, hskip, -⟩ := skipTrivia_of_gap scanner
    obtain ⟨c, own, l, hrest, -, -, -, -, -, hnew, hnext, -⟩ := exists_text_of_scan head
    rw [hgap, hrest, List.mem_append, List.mem_append, not_or, not_or] at hfeed
    obtain ⟨hown, -, hbehind⟩ := hfeed
    have ht : t.newlineBefore = false := by
      rw [hnew, hskip, hline, Bool.false_or, Bool.eq_false_iff, ne_eq, List.contains_iff_mem]
      exact hown
    obtain ⟨hts, hlast⟩ := ih hbehind hnext
    exact ⟨List.forall_mem_cons.mpr ⟨ht, hts⟩, hlast⟩

end Scanner

namespace TokenStream

variable {file : String} {ts us : List Token} {stream : TokenStream}

/-- The stream with tokens before it. -/
def behind (ts : List Token) (stream : TokenStream) : TokenStream :=
  ⟨ts ++ stream.tokens, stream.ending⟩

@[simp] theorem tokens_behind : (behind ts stream).tokens = ts ++ stream.tokens := rfl

@[simp] theorem ending_behind : (behind ts stream).ending = stream.ending := rfl

@[simp] theorem behind_behind : behind ts (behind us stream) = behind (ts ++ us) stream := by
  simp [behind]

/-- The tokens of lexemes with white space before each, and those of the text behind them. -/
theorem ofScanner_written {xs : List Spaced} {back : List Char} (file : String)
    (h : Spaced.Written back xs) (offset : Nat) (afterValue : Bool) :
    ofScanner file ⟨Spaced.chars xs ++ back, offset, false, afterValue⟩ =
      behind (Spaced.tokensAt file offset xs) (ofScanner file
        ⟨back, offset + Utf8.size (Spaced.chars xs), false, Spaced.endsValue afterValue xs⟩) :=
  ofScanner_of_reads (Scanner.reads_of_written file h offset afterValue)

/-- No token of a source on one line stands on a new line. -/
theorem newlineBefore_of_inline {source : String} {stop : Token}
    (h : ofSource source file = ⟨ts, .ok stop⟩) (hline : '\n' ∉ source.toList) :
    ∀ t ∈ ts, t.newlineBefore = false := by
  obtain ⟨last, -, -, hreads, -⟩ := exists_scan_ended h
  exact (hreads.inline hline rfl).1

end TokenStream

/-! ## Texts in front of lexemes -/

/-- The lexeme with white space before it does not go on with what stands before it, and what stands
behind it does not go on with the lexeme. -/
structure Spaced.Apart (x : Spaced) (back : List Char) : Prop where
  blank : ∀ c ∈ x.gap, isWhitespace c = true
  stands : ∀ afterValue, x.lexeme.Stands afterValue back
  apart : Lexeme.BeginsApart (x.gap ++ (x.lexeme.text ++ back))

/-- Wherever the text stands in front of a lexeme that does not go on with it, these are its tokens,
and the lexeme is the next one. -/
def Scans (file text : String) (tokens : Nat → List Token) : Prop :=
  ∀ (offset : Nat) (x : Spaced) (back : List Char), x.Apart back →
    TokenStream.ofScanner file
        ⟨text.toList ++ (x.gap ++ (x.lexeme.text ++ back)), offset, false, false⟩ =
      .behind (tokens offset ++ [x.tokenAt file (offset + text.utf8ByteSize)])
        (.ofScanner file ⟨back, offset + text.utf8ByteSize + Utf8.size x.gap +
          Utf8.size x.lexeme.text, false, x.lexeme.token.endsValue⟩)

namespace Scans

variable {file text other joint : String} {tokens tokens' : Nat → List Token}

/-- A source on one line. -/
theorem inline {source : String} {ts : List Token} {stop : Token}
    (h : TokenStream.ofSource source file = ⟨ts, .ok stop⟩) (hsource : Inline source file) :
    Scans file source fun offset => ts.map (Token.shift offset) := by
  intro offset x back hx
  obtain ⟨last, t, stay, hreads, hscan⟩ := TokenStream.exists_scan_ended h
  have hsize : (last.shift offset).size = offset + source.utf8ByteSize := by
    rw [(hreads.shift offset).size_eq, Scanner.size, Scanner.shift, Scanner.ofSource,
      Utf8.size_toList, Nat.zero_add]
  have hblank : ∀ c ∈ (last.shift offset).rest, isWhitespace c = true := by
    have hlast := hsource.free.2
    rwa [Woven.ofSource, hreads.last_cut hscan] at hlast
  obtain ⟨-, hfeed, hline⟩ := hreads.inline hsource.line rfl
  have hnewline : ((last.shift offset).lineBreak ||
      ((last.shift offset).rest ++ x.gap).contains '\n') = x.gap.contains '\n' := by
    change (last.lineBreak || (last.rest ++ x.gap).contains '\n') = x.gap.contains '\n'
    simp [hline, hfeed]
  have hnext := Scanner.scan_before_spaced file hblank hx.blank hx.stands
  rw [hsize, hnewline] at hnext
  have hall := ((hreads.shift offset).before hx.apart).trans (.step hnext (.refl _))
  have hscanner : ((Scanner.ofSource source).shift offset).before
      (x.gap ++ (x.lexeme.text ++ back)) =
        ⟨source.toList ++ (x.gap ++ (x.lexeme.text ++ back)), offset, false, false⟩ := by
    rw [Scanner.before, Scanner.shift, Scanner.ofSource, Nat.zero_add]
  rw [hscanner] at hall
  exact TokenStream.ofScanner_of_reads hall

/-- A name. -/
theorem name (file : String) (htext : Lexeme.IsName text) :
    Scans file text fun offset => [Spaced.tokenAt ⟨[], .name text⟩ file offset] := by
  intro offset x back hx
  have hwritten : Spaced.Written back [⟨[], .name text⟩, x] := by
    refine .cons nofun (fun afterValue => ?_) (.cons hx.blank hx.stands .nil)
    refine Lexeme.stands_name afterValue htext ?_
    simpa using hx.apart.endsWord
  have hstream := TokenStream.ofScanner_written file hwritten offset false
  simpa [Spaced.tokensAt, Spaced.endsValue, Lexeme.name, Utf8.size_toList, Nat.add_assoc] using
    hstream

/-- Two texts with a lexeme and a space between them. -/
theorem joined (h : Scans file text tokens) (h' : Scans file other tokens') {x : Spaced}
    (hx : ∀ back, x.Apart (' ' :: back)) (hopen : x.lexeme.token.endsValue = false)
    (hjoint : joint.toList = x.gap ++ (x.lexeme.text ++ [' '])) :
    Scans file (text ++ joint ++ other) fun offset =>
      tokens offset ++ x.tokenAt file (offset + text.utf8ByteSize) ::
        tokens' (offset + text.utf8ByteSize + joint.utf8ByteSize) := by
  intro offset y back hy
  have hsize : joint.utf8ByteSize = Utf8.size x.gap + (Utf8.size x.lexeme.text + 1) := by
    rw [← Utf8.size_toList, hjoint, Utf8.size_append, Utf8.size_append]
    rfl
  have hfirst := h offset x (' ' :: (other.toList ++ (y.gap ++ (y.lexeme.text ++ back)))) (hx _)
  have hblank := TokenStream.ofScanner_blank file blank_space
    (other.toList ++ (y.gap ++ (y.lexeme.text ++ back)))
    (offset + text.utf8ByteSize + Utf8.size x.gap + Utf8.size x.lexeme.text)
  have hplace : offset + text.utf8ByteSize + Utf8.size x.gap + Utf8.size x.lexeme.text +
      Utf8.size [' '] = offset + text.utf8ByteSize + joint.utf8ByteSize := by
    rw [hsize]
    simp only [Nat.add_assoc]
    rfl
  have hsecond := h' (offset + text.utf8ByteSize + joint.utf8ByteSize) y back hy
  rw [hplace] at hblank
  have hall : (text ++ joint ++ other).toList ++ (y.gap ++ (y.lexeme.text ++ back)) =
      text.toList ++ (x.gap ++ (x.lexeme.text ++
        (' ' :: (other.toList ++ (y.gap ++ (y.lexeme.text ++ back)))))) := by
    simp [hjoint]
  rw [hall, hfirst, hopen]
  refine (congrArg (TokenStream.behind _) (hblank.trans hsecond)).trans ?_
  simp [Nat.add_assoc]

end Scans

end SurfaceGrammar

import Mathlib.Data.List.Basic
import Mathlib.Logic.Relation
import SurfaceGrammar.Proofs.Token.Faults
import SurfaceGrammar.Proofs.Token.Samples
import SurfaceGrammar.Token.Lexer

/-!
# The tokens of a source tile it

The texts of the tokens of a source and the white space and comments between them make up the
source, without anything left out or read twice. Every token has the place of its text, and its
value is that text, or what the body of a literal stands for. A lexer moves its cursor over such
pieces only, so the cursor stays between two characters.

* `Token.Covers`: a token stands for a text at an offset of a source.
* `Tiled`: tokens and gaps that make up a text.
* `TokenStream.tiled_ofScanner`: the tokens that a scanner finds make up the text behind it.
* `Scanner.Moves`: what a cursor goes over while tokens are read.
* `TokenStream.exists_front_of_mem`, `TokenStream.exists_front_of_ending`: where the tokens begin,
  and where the error stands that stops them.
* `Lexer.Running`: a lexer from which tokens are taken, or at which they are looked at.
* `tiled_of_tokenize`: the tokens of a source, and the cursor while they are read.
-/

namespace SurfaceGrammar

/-! ## A token and its text -/

/-- A text is a literal between quotes at an offset of a source, and its body stands for a
value. -/
def IsLiteral (file : String) (offset : Nat) (quote : Char) (text : List Char) (value : String) :
    Prop :=
  ∃ body, text = quote :: body ++ [quote] ∧
    Escape.decodeAt (String.ofList body) (offset + 1) file = .ok value

/-- A token stands for a text that begins at an offset of a source. -/
structure Token.Covers (file : String) (offset : Nat) (text : List Char) (t : Token) : Prop where
  ne_nil : text ≠ []
  ne_eof : t.kind ≠ .eof
  span : t.span = ⟨.ofOffset offset file, .ofOffset (offset + Utf8.size text) file⟩
  string : t.kind = .string → IsLiteral file offset '"' text t.value
  char : t.kind = .char → IsLiteral file offset '\'' text t.value ∧ t.value.length = 1
  other : t.kind ≠ .string → t.kind ≠ .char → t.value = String.ofList text

namespace Lexeme

variable {afterValue : Bool} {c quote : Char} {kind : TokenKind} {text : List Char} {l : Lexeme}

theorem isLiteral_of_quoted (h : quoted kind quote text = .ok l) (file : String) (offset : Nat) :
    l.kind = kind ∧ IsLiteral file offset quote l.text l.value ∧
      (kind = .char → l.value.length = 1) := by
  obtain ⟨body, value, -, hvalue, hsingle, rfl⟩ := quoted_eq_ok_iff.mp h
  refine ⟨rfl, ⟨body, rfl, ?_⟩, fun hkind => ?_⟩
  · simp only [Escape.decodeAt, String.toList_ofList, hvalue]
  · rw [String.length_ofList]
    exact hsingle hkind

/-- The kind of an operator or a punctuation mark is not that of a literal. -/
theorem value_of_symbol (h : symbol c text = .ok l) :
    l.kind ≠ .string ∧ l.kind ≠ .char ∧ l.value = String.ofList l.text := by
  obtain ⟨spelling, kind, before, after, -, hsymbols, -, rfl⟩ := symbol_eq_ok_iff.mp h
  have hmark : ∀ entry ∈ symbols, entry.2 ≠ .string ∧ entry.2 ≠ .char := by decide
  obtain ⟨hstring, hchar⟩ := hmark (spelling, kind) (by simp [hsymbols])
  exact ⟨hstring, hchar, rfl⟩

end Lexeme

namespace Scanner

variable {file : String} {scanner next last : Scanner} {t : Token}

/-- The token that a scanner makes of a lexeme stands for the text of the lexeme. The cases are
those of what a lexeme looks like. -/
theorem covers_emit (file : String) {c : Char} {text : List Char} {l : Lexeme}
    (hl : Lexeme.recognise scanner.afterValue c text = .ok l) :
    (scanner.emit file l).1.Covers file scanner.offset l.text := by
  have hpos := Lexeme.length_pos_of_recognise hl
  have hne := (Lexeme.proper_of_recognise hl).ne_eof
  -- A token whose value is its text.
  have hplain (hstring : l.kind ≠ .string) (hchar : l.kind ≠ .char)
      (hvalue : l.value = String.ofList l.text) :
      (scanner.emit file l).1.Covers file scanner.offset l.text :=
    { ne_nil := List.ne_nil_of_length_pos hpos
      ne_eof := hne
      span := rfl
      string := fun h => absurd h hstring
      char := fun h => absurd h hchar
      other := fun _ _ => hvalue }
  cases Lexeme.recognise_eq_ok_iff.mp hl with
  | name _ | minus _ _ | negative _ _ | number _ _ => exact hplain nofun nofun rfl
  | symbol _ _ _ _ _ mark =>
    obtain ⟨hstring, hchar, hvalue⟩ := Lexeme.value_of_symbol mark
    exact hplain hstring hchar hvalue
  | string literal =>
    obtain ⟨hkind, hliteral, -⟩ := Lexeme.isLiteral_of_quoted literal file scanner.offset
    exact
      { ne_nil := List.ne_nil_of_length_pos hpos
        ne_eof := hne
        span := rfl
        string := fun _ => hliteral
        char := fun h => nomatch hkind.symm.trans h
        other := fun h => absurd hkind h }
  | char literal =>
    obtain ⟨hkind, hliteral, hsingle⟩ := Lexeme.isLiteral_of_quoted literal file scanner.offset
    exact
      { ne_nil := List.ne_nil_of_length_pos hpos
        ne_eof := hne
        span := rfl
        string := fun h => nomatch hkind.symm.trans h
        char := fun _ => ⟨hliteral, hsingle rfl⟩
        other := fun _ h => absurd hkind h }

/-- White space and comments take the bytes between a scanner and the next token. -/
theorem offset_skipTrivia (scanner : Scanner) :
    scanner.skipTrivia.offset = scanner.offset + Utf8.size scanner.gap := by
  obtain ⟨hsize, -⟩ := place_skipTrivia scanner
  have hrest := congrArg Utf8.size (skipTrivia_of_gap scanner).1
  rw [Utf8.size_append] at hrest
  rw [size, size] at hsize
  omega

/-- At the end, the gap before a scanner is all that is left. -/
theorem rest_of_ended (h : scanner.scan file = .ended t next) :
    scanner.rest = scanner.gap ∧ (IsTrivia scanner.gap ∨ IsOpen scanner.gap) ∧ t.kind = .eof ∧
      t.span = ⟨.ofOffset (scanner.offset + Utf8.size scanner.gap) file,
        .ofOffset (scanner.offset + Utf8.size scanner.gap) file⟩ ∧
      t.newlineBefore = scanner.skipTrivia.lineBreak := by
  obtain ⟨hrest, rfl, -⟩ := scan_eq_ended_iff.mp h
  refine ⟨?_, scanner.gap_cases.imp_right And.left, rfl, ?_, rfl⟩
  · have hcut := (skipTrivia_of_gap scanner).1
    rwa [hrest, List.append_nil] at hcut
  · rw [← offset_skipTrivia]
    rfl

/-- A token that is found stands behind a gap, and the next scanner behind the token. -/
theorem exists_covers_of_scan (h : scanner.scan file = .token t next) :
    ∃ text, scanner.skipTrivia.rest = text ++ next.rest ∧
      scanner.rest = scanner.gap ++ text ++ next.rest ∧ IsTrivia scanner.gap ∧
      t.Covers file (scanner.offset + Utf8.size scanner.gap) text ∧
      next.offset = scanner.offset + Utf8.size scanner.gap + Utf8.size text ∧
      t.newlineBefore = scanner.skipTrivia.lineBreak := by
  obtain ⟨c, text, l, hrest, hl, hemit⟩ := scan_eq_token_iff.mp h
  obtain ⟨after, hafter⟩ := Lexeme.prefix_of_recognise hl
  have hcovers := covers_emit file hl
  have htext : scanner.skipTrivia.rest = l.text ++ next.rest := by
    cases hemit
    rw [hrest, ← hafter, List.drop_left]
  have htrivia : IsTrivia scanner.gap := by
    rcases scanner.gap_cases with htrivia | ⟨-, hend⟩
    · exact htrivia
    · rw [hrest] at hend
      cases hend
  rw [hemit, offset_skipTrivia] at hcovers
  refine ⟨l.text, htext, ?_, htrivia, hcovers, ?_, ?_⟩
  · rw [List.append_assoc, ← htext]
    exact (skipTrivia_of_gap scanner).1
  · rw [← offset_skipTrivia]
    cases hemit
    rfl
  · cases hemit
    rfl

end Scanner

/-! ## Tilings -/

/-- Tokens that stand one after another, with white space and comments between them, from an
offset of a source to its end. The token for the end stands behind the last gap, which may end
with a line comment. -/
inductive Tiled (file : String) : Nat → List Char → List Token → Prop
  | last {offset : Nat} {gap : List Char} {stop : Token} (trivia : IsTrivia gap ∨ IsOpen gap)
      (kind : stop.kind = .eof)
      (span : stop.span = ⟨.ofOffset (offset + Utf8.size gap) file,
        .ofOffset (offset + Utf8.size gap) file⟩) :
      Tiled file offset gap [stop]
  | token {offset : Nat} {gap text rest : List Char} {t : Token} {ts : List Token}
      (trivia : IsTrivia gap) (covers : t.Covers file (offset + Utf8.size gap) text)
      (tail : Tiled file (offset + Utf8.size gap + Utf8.size text) rest ts) :
      Tiled file offset (gap ++ text ++ rest) (t :: ts)

/-- The tokens that a scanner finds tile the text behind it. -/
theorem TokenStream.tiled_ofScanner {file : String} {scanner : Scanner} {stop : Token}
    (h : (ofScanner file scanner).ending = .ok stop) :
    Tiled file scanner.offset scanner.rest ((ofScanner file scanner).tokens ++ [stop]) := by
  fun_induction ofScanner file scanner with
  | case1 scanner t stay hscan =>
    cases h
    obtain ⟨hgap, htrivia, hkind, hspan, -⟩ := Scanner.rest_of_ended hscan
    rw [hgap, List.nil_append]
    exact .last htrivia hkind hspan
  | case2 => cases h
  | case3 scanner t next hscan stream =>
    rename_i ih
    obtain ⟨text, -, hsource, htrivia, hcovers, hoffset, -⟩ := Scanner.exists_covers_of_scan hscan
    rw [hsource]
    exact .token htrivia hcovers (hoffset ▸ ih h)

/-- The tokens of a source tile it. -/
theorem TokenStream.tiled_ofSource {source file : String} {us : List Token} {stop : Token}
    (h : ofSource source file = ⟨us, .ok stop⟩) : Tiled file 0 source.toList (us ++ [stop]) := by
  have hending : (ofSource source file).ending = .ok stop := by rw [h]
  have htiled := tiled_ofScanner hending
  change Tiled file 0 source.toList ((ofSource source file).tokens ++ [stop]) at htiled
  rwa [h] at htiled

namespace Tiled

variable {file : String} {offset : Nat} {text : List Char} {ts : List Token} {t : Token}

/-- The token for the end stands at the end, and nowhere else. -/
theorem exists_stop (h : Tiled file offset text ts) : ∃ us stop, ts = us ++ [stop] ∧
    stop.kind = .eof ∧ stop.span = ⟨.ofOffset (offset + Utf8.size text) file,
      .ofOffset (offset + Utf8.size text) file⟩ ∧
    ∀ t ∈ us, ∃ front own back, text = front ++ own ++ back ∧
      t.Covers file (offset + Utf8.size front) own := by
  induction h with
  | last trivia kind span => exact ⟨[], _, rfl, kind, span, by simp⟩
  | @token offset gap own rest t ts trivia covers tail ih =>
    obtain ⟨us, stop, rfl, hkind, hspan, hus⟩ := ih
    refine ⟨t :: us, stop, rfl, hkind, ?_, ?_⟩
    · rw [hspan, Utf8.size_append, Utf8.size_append]
      simp only [Nat.add_assoc]
    · intro u hu
      rcases List.mem_cons.mp hu with rfl | hu
      · exact ⟨gap, own, rest, rfl, covers⟩
      · obtain ⟨front, own', back, rfl, hcovers⟩ := hus u hu
        refine ⟨gap ++ own ++ front, own', back, by simp, ?_⟩
        rw [Utf8.size_append, Utf8.size_append]
        simpa only [Nat.add_assoc] using hcovers

end Tiled

/-! ## The cursor -/

namespace Scanner

variable {file source : String} {scanner next : Scanner} {t : Token}

/-- One move of the cursor while tokens are read: over a white space character or a comment, or
over the text of a token. -/
inductive Move (file : String) : Scanner → Scanner → Prop
  | skip {scanner : Scanner} {piece : List Char} (taken : Trivia.take? scanner.rest = some piece) :
      Move file scanner (scanner.skip piece)
  | emit {scanner : Scanner} {c : Char} {text : List Char} {l : Lexeme}
      (rest : scanner.rest = c :: text)
      (recognised : Lexeme.recognise scanner.afterValue c text = .ok l) :
      Move file scanner (scanner.emit file l).2

/-- The places that a cursor gets to from another one while tokens are read. -/
def Moves (file : String) : Scanner → Scanner → Prop := Relation.ReflTransGen (Move file)

theorem moves_skipTrivia (file : String) (scanner : Scanner) :
    Moves file scanner scanner.skipTrivia := by
  fun_induction skipTrivia scanner with
  | case1 => exact .refl
  | case2 scanner piece taken ih => exact .head (.skip taken) ih

/-- Reading a token, the end or an error takes nothing but such moves. -/
theorem moves_of_scan (file : String) (scanner : Scanner) :
    match scanner.scan file with
    | .token _ next | .ended _ next | .failed _ next => Moves file scanner next := by
  have hskip := moves_skipTrivia file scanner
  cases hscan : scanner.scan file with
  | token t next =>
    obtain ⟨c, text, l, hrest, hl, hemit⟩ := scan_eq_token_iff.mp hscan
    cases hemit
    exact hskip.tail (.emit hrest hl)
  | ended t next =>
    obtain ⟨-, -, rfl⟩ := scan_eq_ended_iff.mp hscan
    exact hskip
  | failed e stay =>
    obtain ⟨-, -, -, -, -, -, rfl⟩ := scan_eq_failed_iff.mp hscan
    exact hskip

/-- A scanner stands between two parts of a source. -/
def StandsIn (source : String) (scanner : Scanner) : Prop :=
  ∃ front, source.toList = front ++ scanner.rest ∧ scanner.offset = Utf8.size front

theorem standsIn_ofSource (source : String) : (ofSource source).StandsIn source :=
  ⟨[], rfl, rfl⟩

/-- No move gets the cursor into a character or past the end. -/
theorem Move.standsIn (h : Move file scanner next) (hscanner : scanner.StandsIn source) :
    next.StandsIn source := by
  obtain ⟨front, hsource, hoffset⟩ := hscanner
  -- What a move goes over stands at the beginning of the rest.
  have hover {piece after : List Char} (hrest : piece ++ after = scanner.rest) :
      source.toList = (front ++ piece) ++ scanner.rest.drop piece.length ∧
        scanner.offset + Utf8.size piece = Utf8.size (front ++ piece) := by
    rw [← hrest, List.drop_left, List.append_assoc, hrest, Utf8.size_append, hoffset]
    exact ⟨hsource, rfl⟩
  cases h with
  | @skip piece taken =>
    obtain ⟨after, hafter⟩ := Trivia.prefix_of_take? taken
    exact ⟨front ++ piece, hover hafter⟩
  | @emit c text l rest recognised =>
    obtain ⟨after, hafter⟩ := Lexeme.prefix_of_recognise recognised
    exact ⟨front ++ l.text, hover (hafter.trans rest.symm)⟩

theorem Moves.standsIn (h : Moves file (ofSource source) scanner) : scanner.StandsIn source := by
  induction h with
  | refl => exact standsIn_ofSource source
  | tail _ hmove ih => exact hmove.standsIn ih

theorem Reads.moves {ts : List Token} (h : scanner.Reads file ts next) :
    Moves file scanner next := by
  induction h with
  | refl => exact .refl
  | @step scanner next last t ts head _ ih =>
    have hscan := moves_of_scan file scanner
    rw [head] at hscan
    exact hscan.trans ih

/-- Every token that is read begins where the cursor stood before it. -/
theorem Reads.exists_begin {ts : List Token} (h : scanner.Reads file ts next) (ht : t ∈ ts) :
    ∃ middle, Moves file scanner middle ∧ middle.rest ≠ [] ∧
      t.span.start = .ofOffset middle.offset file := by
  induction h with
  | refl => cases ht
  | @step scanner next last u ts head _ ih =>
    rcases List.mem_cons.mp ht with rfl | ht
    · obtain ⟨c, text, l, hrest, -, hemit⟩ := scan_eq_token_iff.mp head
      refine ⟨scanner.skipTrivia, moves_skipTrivia file scanner, ?_, ?_⟩
      · rw [hrest]
        exact List.cons_ne_nil c text
      · cases hemit
        rfl
    · obtain ⟨middle, hmoves, hmiddle⟩ := ih ht
      have hscan := moves_of_scan file scanner
      rw [head] at hscan
      exact ⟨middle, hscan.trans hmoves, hmiddle⟩

end Scanner

namespace TokenStream

variable {source file : String} {t : Token} {e : Error}

/-- A token of a source begins before one of its characters. -/
theorem exists_front_of_mem (ht : t ∈ (ofSource source file).tokens) :
    ∃ front back, source.toList = front ++ back ∧ back ≠ [] ∧
      t.span.start = .ofOffset (Utf8.size front) file := by
  obtain ⟨last, hreads, -⟩ := reads_ofScanner file (Scanner.ofSource source)
  obtain ⟨middle, hmoves, hrest, hstart⟩ := hreads.exists_begin ht
  obtain ⟨front, hsource, hoffset⟩ := hmoves.standsIn
  exact ⟨front, middle.rest, hsource, hrest, hoffset ▸ hstart⟩

/-- What stops the tokens of a source stands before one of its characters. -/
theorem exists_front_of_ending (he : (ofSource source file).ending = .error e) :
    ∃ front back, source.toList = front ++ back ∧ back ≠ [] ∧
      e.position = .ofOffset (Utf8.size front) file := by
  obtain ⟨last, hreads, ⟨t, stay, -, hok⟩ | ⟨error, stay, hscan, herror⟩⟩ :=
    reads_ofScanner file (Scanner.ofSource source)
  · cases hok.symm.trans he
  · cases herror.symm.trans he
    have hstay := Scanner.moves_of_scan file last
    rw [hscan] at hstay
    have hmoves : Scanner.Moves file (Scanner.ofSource source) stay := hreads.moves.trans hstay
    obtain ⟨front, hsource, hoffset⟩ := hmoves.standsIn
    obtain ⟨-, inner, back, hrest, hback, hposition⟩ := Scanner.place_of_scan_failed hscan
    refine ⟨front ++ inner, back, ?_, hback, ?_⟩
    · rw [hsource, hrest, List.append_assoc]
    · rw [hposition, hoffset, Utf8.size_append]

end TokenStream

namespace Lexer

variable {source file : String} {lexer other : Lexer} {result : Except Error Token}

/-- A lexer that was made for a source, and from which tokens were then taken or looked at. -/
inductive Running (source file : String) : Lexer → Prop
  | start : Running source file (ofSource source file)
  | next {lexer other : Lexer} {result : Except Error Token} (before : Running source file lexer)
      (taken : lexer.next? = some (result, other)) : Running source file other
  | peek {lexer other : Lexer} {result : Except Error Token} (before : Running source file lexer)
      (seen : lexer.peek? = some (result, other)) : Running source file other

/-- The lexer has not left the characters of its source. -/
structure OnTrack (source file : String) (lexer : Lexer) : Prop where
  name : lexer.file = file
  beyond : lexer.beyond = 0
  moves : Scanner.Moves file (Scanner.ofSource source) lexer.scanner

theorem OnTrack.exists_scan? (h : lexer.OnTrack source file) : ∃ result other,
    lexer.scan? = some (result, other) ∧ other.OnTrack source file := by
  obtain ⟨rfl, hbeyond, hmoves⟩ := h
  have hscan := Scanner.moves_of_scan lexer.file lexer.scanner
  rw [scan?, if_pos hbeyond]
  split
  · next heq =>
    rw [heq] at hscan
    exact ⟨_, _, rfl, rfl, hbeyond, hmoves.trans hscan⟩
  · next heq =>
    rw [heq] at hscan
    exact ⟨_, _, rfl, rfl, hbeyond, hmoves.trans hscan⟩
  · next heq =>
    rw [heq] at hscan
    exact ⟨_, _, rfl, rfl, hbeyond, hmoves.trans hscan⟩

theorem OnTrack.exists_next? (h : lexer.OnTrack source file) : ∃ result other,
    lexer.next? = some (result, other) ∧ other.OnTrack source file := by
  unfold next?
  split
  · exact ⟨_, _, rfl, h.name, h.beyond, h.moves⟩
  · exact h.exists_scan?

theorem OnTrack.exists_peek? (h : lexer.OnTrack source file) : ∃ result other,
    lexer.peek? = some (result, other) ∧ other.OnTrack source file := by
  unfold peek?
  split
  · exact ⟨_, _, rfl, h⟩
  · obtain ⟨result, other, hscan, hother⟩ := h.exists_scan?
    rw [hscan]
    cases result with
    | ok token => exact ⟨_, _, rfl, hother.name, hother.beyond, hother.moves⟩
    | error error => exact ⟨_, _, rfl, hother⟩

theorem Running.onTrack (h : Running source file lexer) : lexer.OnTrack source file := by
  induction h with
  | start => exact ⟨rfl, rfl, .refl⟩
  | next _ taken ih =>
    obtain ⟨result, other, hnext, hother⟩ := ih.exists_next?
    rw [taken] at hnext
    cases hnext
    exact hother
  | peek _ seen ih =>
    obtain ⟨result, other, hpeek, hother⟩ := ih.exists_peek?
    rw [seen] at hpeek
    cases hpeek
    exact hother

end Lexer

/-! ## The main statement -/

/-- If a source whose bytes can be counted with 32 bits has tokens, then they tile it: exactly one
token for the end stands behind the last byte, and every other token stands for a stretch of the
text that is not empty, in order and without overlaps, with only white space and complete comments
outside of them. While tokens are read, with or without success, the cursor is always between two
characters of the source, so the text behind it can be taken. -/
theorem tiled_of_tokenize (source file : String) :
    (∀ ts, source.utf8ByteSize < UInt32.size → tokenize source file = .ok ts →
      Tiled file 0 source.toList ts ∧
      ∃ us stop, ts = us ++ [stop] ∧ stop.kind = .eof ∧
        stop.span.start.byte = source.utf8ByteSize ∧ stop.span.stop = stop.span.start ∧
        (us.Pairwise fun t u => t.span.Precedes u.span) ∧
        ∀ t ∈ us, t.kind ≠ .eof ∧ t.span.LiesIn file source.utf8ByteSize ∧
          ∃ front text back : List Char, source.toList = front ++ text ++ back ∧
            t.span.start.byte = Utf8.size front ∧
            t.span.stop.byte = Utf8.size (front ++ text) ∧
            t.Covers file (Utf8.size front) text) ∧
    (∀ scanner, Scanner.Moves file (Scanner.ofSource source) scanner →
      ∃ front, source.toList = front ++ scanner.rest ∧ scanner.offset = Utf8.size front) ∧
    ∀ lexer, Lexer.Running source file lexer →
      Scanner.Moves file (Scanner.ofSource source) lexer.scanner ∧
      (∃ front back, source = front ++ back ∧ lexer.cursor = front.utf8ByteSize ∧
        lexer.remainder? = some back) ∧
      lexer.next?.isSome ∧ lexer.peek?.isSome := by
  refine ⟨fun ts hsize hts => ?_, fun scanner hscanner => hscanner.standsIn,
    fun lexer hlexer => ?_⟩
  · obtain ⟨us, stop, hstream, rfl⟩ := tokenize_eq_ok_iff.mp hts
    have htiled := TokenStream.tiled_ofSource hstream
    obtain ⟨htokens, hordered, -⟩ := TokenStream.laidOut_ofSource file hsize
    rw [hstream] at htokens hordered
    refine ⟨htiled, us, stop, rfl, ?_⟩
    obtain ⟨us', stop', heq, hkind, hspan, hcovers⟩ := htiled.exists_stop
    obtain ⟨rfl, hstop⟩ := List.append_inj' heq rfl
    obtain rfl := List.cons.inj hstop |>.1
    have hbyte {p : Nat} (hp : p ≤ source.utf8ByteSize) : (Position.ofOffset p file).byte = p :=
      Position.byte_ofOffset file (by omega)
    rw [Nat.zero_add, Utf8.size_toList] at hspan
    refine ⟨hkind, ?_, ?_, hordered, fun t ht => ?_⟩
    · rw [hspan]
      exact hbyte (Nat.le_refl _)
    · rw [hspan]
    · obtain ⟨front, text, back, hsource, hcover⟩ := hcovers t ht
      rw [Nat.zero_add] at hcover
      have hsizes := congrArg Utf8.size hsource
      rw [Utf8.size_toList, Utf8.size_append, Utf8.size_append] at hsizes
      refine ⟨hcover.ne_eof, htokens t ht, front, text, back, hsource, ?_, ?_, hcover⟩
      · rw [hcover.span]
        exact hbyte (by omega)
      · rw [hcover.span, Utf8.size_append]
        exact hbyte (by omega)
  · have htrack := hlexer.onTrack
    obtain ⟨result, other, hnext, -⟩ := htrack.exists_next?
    obtain ⟨result', other', hpeek, -⟩ := htrack.exists_peek?
    obtain ⟨front, hsource, hoffset⟩ := htrack.moves.standsIn
    refine ⟨htrack.moves, ⟨String.ofList front, String.ofList lexer.scanner.rest, ?_, ?_, ?_⟩,
      by simp [hnext], by simp [hpeek]⟩
    · rw [← String.ofList_append, ← hsource, String.ofList_toList]
    · rw [Lexer.cursor, htrack.beyond, hoffset, Utf8.utf8ByteSize_ofList]
      rfl
    · rw [Lexer.remainder?, if_pos htrack.beyond]

/-- A char token of four bytes, with a comment that the end closes behind it. -/
theorem tiled_of_tokenize_char :
    "a -'é'//".utf8ByteSize < UInt32.size ∧
    tokenize "a -'é'//" "shell" = .ok
      [⟨.identifier, "a", ⟨⟨0, "shell"⟩, ⟨1, "shell"⟩⟩, false⟩,
        ⟨.dash, "-", ⟨⟨2, "shell"⟩, ⟨3, "shell"⟩⟩, false⟩,
        ⟨.char, "é", ⟨⟨3, "shell"⟩, ⟨7, "shell"⟩⟩, false⟩,
        ⟨.eof, "EOF", ⟨⟨9, "shell"⟩, ⟨9, "shell"⟩⟩, false⟩] ∧
    Tiled "shell" 0 "a -'é'//".toList
      [⟨.identifier, "a", ⟨⟨0, "shell"⟩, ⟨1, "shell"⟩⟩, false⟩,
        ⟨.dash, "-", ⟨⟨2, "shell"⟩, ⟨3, "shell"⟩⟩, false⟩,
        ⟨.char, "é", ⟨⟨3, "shell"⟩, ⟨7, "shell"⟩⟩, false⟩,
        ⟨.eof, "EOF", ⟨⟨9, "shell"⟩, ⟨9, "shell"⟩⟩, false⟩] ∧
    ∃ result lexer, (Lexer.ofSource "a -'é'//" "shell").next? = some (result, lexer) ∧
      (∃ front back, "a -'é'//" = front ++ back ∧ lexer.cursor = front.utf8ByteSize ∧
        lexer.remainder? = some back) ∧
      lexer.next?.isSome ∧ lexer.peek?.isSome := by
  have hsize : "a -'é'//".utf8ByteSize < UInt32.size := by decide
  have htokens : tokenize "a -'é'//" "shell" = .ok
      [⟨.identifier, "a", ⟨⟨0, "shell"⟩, ⟨1, "shell"⟩⟩, false⟩,
        ⟨.dash, "-", ⟨⟨2, "shell"⟩, ⟨3, "shell"⟩⟩, false⟩,
        ⟨.char, "é", ⟨⟨3, "shell"⟩, ⟨7, "shell"⟩⟩, false⟩,
        ⟨.eof, "EOF", ⟨⟨9, "shell"⟩, ⟨9, "shell"⟩⟩, false⟩] := by decide +kernel
  obtain ⟨hparts, -, hcursor⟩ := tiled_of_tokenize "a -'é'//" "shell"
  obtain ⟨⟨result, lexer⟩, hnext⟩ := Option.isSome_iff_exists.mp (hcursor _ .start).2.2.1
  exact ⟨hsize, htokens, (hparts _ hsize htokens).1, result, lexer, hnext,
    (hcursor lexer (.next .start hnext)).2⟩

end SurfaceGrammar

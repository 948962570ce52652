import SurfaceGrammar.Error
import SurfaceGrammar.Proofs.Token.Trivia

/-!
# Sources that begin later

A scanner does not look at how many bytes stand before it. The same text at a later place has the
same tokens and the same errors at later places. A line break before the text shows in its first
token only.

* `Position.shift`, `Span.shift`, `Token.shift`, `Error.shift`: the same a number of bytes later.
* `Position.toNat_offset_shift`: the offset of a later position, as long as it has 32 bits.
* `TokenStream.ofScanner_shift`: the tokens of a text at a later place.
* `TokenStream.ofScanner_onNewLine`: the tokens of a text on a new line.
* `TokenStream.ofScanner_moved`: the tokens of a source at a later place, on a new line or not.
-/

namespace SurfaceGrammar

/-! ## Later places -/

/-- The position a number of bytes later. -/
def Position.shift (count : Nat) (p : Position) : Position :=
  Position.ofOffset (p.offset.toNat + count) p.file

/-- The span a number of bytes later. -/
def Span.shift (count : Nat) (span : Span) : Span :=
  ⟨span.start.shift count, span.stop.shift count⟩

/-- The token a number of bytes later. -/
def Token.shift (count : Nat) (t : Token) : Token :=
  { t with span := t.span.shift count }

/-- The error a number of bytes later. -/
def Error.shift (count : Nat) (e : Error) : Error :=
  ⟨e.kind, e.position.shift count⟩

namespace Position

variable {count : Nat} {p : Position}

theorem toNat_offset_shift (h : p.offset.toNat + count < UInt32.size) :
    (p.shift count).offset.toNat = p.offset.toNat + count := by
  rw [shift, toNat_offset_ofOffset]
  exact Nat.mod_eq_of_lt h

@[simp] theorem shift_ofOffset (count offset : Nat) (file : String) :
    (ofOffset offset file).shift count = ofOffset (offset + count) file := by
  unfold shift ofOffset
  congr 1
  apply UInt32.toNat.inj
  simp

theorem shift_zero (p : Position) : p.shift 0 = p := by
  unfold shift ofOffset
  rw [Nat.add_zero, UInt32.ofNat_toNat]

theorem shift_shift (count more : Nat) (p : Position) :
    (p.shift count).shift more = p.shift (count + more) := by
  show (ofOffset (p.offset.toNat + count) p.file).shift more = _
  rw [shift_ofOffset, Nat.add_assoc]
  rfl

end Position

theorem Span.shift_zero : Span.shift 0 = id := by
  funext span
  unfold shift
  rw [Position.shift_zero, Position.shift_zero]
  rfl

theorem Span.shift_comp_shift (count more : Nat) :
    Span.shift more ∘ Span.shift count = Span.shift (count + more) := by
  funext span
  have hstart := Position.shift_shift count more span.start
  have hstop := Position.shift_shift count more span.stop
  show Span.mk _ _ = Span.mk _ _
  rw [← hstart, ← hstop]
  rfl

theorem Token.shift_comp_shift (count more : Nat) :
    Token.shift more ∘ Token.shift count = Token.shift (count + more) := by
  funext t
  unfold shift
  rw [← Span.shift_comp_shift]
  rfl

theorem Token.shift_zero (t : Token) : t.shift 0 = t := by
  rw [shift, Span.shift_zero]
  rfl

/-! ## Streams at a later place -/

/-- The tokens and the ending of a stream a number of bytes later. -/
def TokenStream.shift (count : Nat) (stream : TokenStream) : TokenStream where
  tokens := stream.tokens.map (Token.shift count)
  ending :=
    match stream.ending with
    | .ok stop => .ok (stop.shift count)
    | .error error => .error (error.shift count)

namespace Scanner

variable (file : String) (count : Nat) (scanner : Scanner)

/-- A scanner with more bytes before it. -/
def shift : Scanner := { scanner with offset := scanner.offset + count }

/-- What a scanner with more bytes before it finds. -/
def Found.shift : Found → Found
  | token t next => token (t.shift count) (next.shift count)
  | ended t stay => ended (t.shift count) (stay.shift count)
  | failed error stay => failed (error.shift count) (stay.shift count)

theorem skipTrivia_shift : (scanner.shift count).skipTrivia = scanner.skipTrivia.shift count := by
  fun_induction skipTrivia scanner with
  | case1 scanner htake => exact skipTrivia_of_none htake
  | case2 scanner piece htake ih =>
    have hsome : Trivia.take? (scanner.shift count).rest = some piece := htake
    have hskip : (scanner.shift count).skip piece = (scanner.skip piece).shift count := by
      simp only [skip, shift, Nat.add_right_comm]
    rw [skipTrivia_of_some hsome, hskip, ih]

theorem scan_shift : (scanner.shift count).scan file = (scanner.scan file).shift count := by
  unfold scan
  rw [skipTrivia_shift]
  generalize scanner.skipTrivia = scanner
  obtain ⟨rest, offset, lineBreak, afterValue⟩ := scanner
  dsimp only [shift]
  cases rest with
  | nil => simp [Found.shift, Token.shift, Span.shift, endToken, shift]
  | cons c text =>
    dsimp only
    cases Lexeme.recognise afterValue c text with
    | ok lexeme =>
      simp only [Found.shift, Token.shift, Span.shift, emit, shift, Position.shift_ofOffset,
        Nat.add_right_comm offset count]
      rfl
    | error fault => simp [Found.shift, Error.shift, shift, Nat.add_right_comm]

end Scanner

/-- The tokens of a text at a later place. -/
theorem TokenStream.ofScanner_shift (file : String) (count : Nat) (scanner : Scanner) :
    ofScanner file (scanner.shift count) = (ofScanner file scanner).shift count := by
  have hscan := Scanner.scan_shift file count scanner
  fun_induction ofScanner file scanner with
  | case1 scanner t stay found =>
    rw [found] at hscan
    exact ofScanner_of_ended hscan
  | case2 scanner error stay found =>
    rw [found] at hscan
    exact ofScanner_of_failed hscan
  | case3 scanner t next found stream ih =>
    rw [found] at hscan
    rw [ofScanner_of_token hscan, ih (Scanner.scan_shift file count next)]
    rfl

/-! ## Texts on a new line -/

/-- The token with a line break before it. -/
def Token.onNewLine (t : Token) : Token := { t with newlineBefore := true }

/-- The stream with a line break before its first token. -/
def TokenStream.onNewLine : TokenStream → TokenStream
  | ⟨t :: ts, ending⟩ => ⟨t.onNewLine :: ts, ending⟩
  | ⟨[], .ok stop⟩ => ⟨[], .ok stop.onNewLine⟩
  | ⟨[], .error error⟩ => ⟨[], .error error⟩

namespace Scanner

variable (file : String) (scanner : Scanner)

/-- A scanner with a line break before it. -/
def onNewLine : Scanner := { scanner with lineBreak := true }

/-- What a scanner with a line break before it finds. -/
def Found.onNewLine : Found → Found
  | token t next => token t.onNewLine next
  | ended t stay => ended t.onNewLine stay.onNewLine
  | failed error stay => failed error stay.onNewLine

theorem skipTrivia_onNewLine : scanner.onNewLine.skipTrivia = scanner.skipTrivia.onNewLine := by
  fun_induction skipTrivia scanner with
  | case1 scanner htake => exact skipTrivia_of_none htake
  | case2 scanner piece htake ih =>
    have hsome : Trivia.take? scanner.onNewLine.rest = some piece := htake
    have hskip : scanner.onNewLine.skip piece = (scanner.skip piece).onNewLine := by
      simp only [skip, onNewLine, Bool.true_or]
    rw [skipTrivia_of_some hsome, hskip, ih]

theorem scan_onNewLine : scanner.onNewLine.scan file = (scanner.scan file).onNewLine := by
  unfold scan
  rw [skipTrivia_onNewLine]
  generalize scanner.skipTrivia = scanner
  obtain ⟨rest, offset, lineBreak, afterValue⟩ := scanner
  dsimp only [onNewLine]
  cases rest with
  | nil => rfl
  | cons c text =>
    dsimp only
    cases Lexeme.recognise afterValue c text with
    | ok lexeme => rfl
    | error fault => rfl

end Scanner

/-- The tokens of a text on a new line. -/
theorem TokenStream.ofScanner_onNewLine (file : String) (scanner : Scanner) :
    ofScanner file scanner.onNewLine = (ofScanner file scanner).onNewLine := by
  have hscan := Scanner.scan_onNewLine file scanner
  cases found : scanner.scan file with
  | token t next =>
    rw [found] at hscan
    rw [ofScanner_of_token hscan, ofScanner_of_token found]
    rfl
  | ended t stay =>
    rw [found] at hscan
    rw [ofScanner_of_ended hscan, ofScanner_of_ended found]
    rfl
  | failed error stay =>
    rw [found] at hscan
    rw [ofScanner_of_failed hscan, ofScanner_of_failed found]
    rfl

/-! ## Sources at a later place -/

namespace TokenStream

/-- The tokens and the ending of a stream a number of bytes later, with a line break before the
first of them or without. -/
def moved (stream : TokenStream) (count : Nat) (lineBreak : Bool) : TokenStream :=
  if lineBreak then (stream.shift count).onNewLine else stream.shift count

/-- A source at a later place, on the same line or on a new one. -/
theorem ofScanner_moved (source file : String) (count : Nat) (lineBreak : Bool) :
    ofScanner file ⟨source.toList, count, lineBreak, false⟩ =
      (ofSource source file).moved count lineBreak := by
  have hshift : ofScanner file ⟨source.toList, count, false, false⟩ =
      (ofSource source file).shift count := by
    rw [ofSource, ← ofScanner_shift, Scanner.ofSource, Scanner.shift, Nat.zero_add]
  cases lineBreak with
  | false => exact hshift
  | true =>
    rw [moved, if_pos rfl, ← hshift, ← ofScanner_onNewLine]
    rfl

theorem length_tokens_moved (stream : TokenStream) (count : Nat) (lineBreak : Bool) :
    (stream.moved count lineBreak).tokens.length = stream.tokens.length := by
  obtain ⟨tokens, ending⟩ := stream
  cases lineBreak with
  | false => exact List.length_map _
  | true =>
    cases tokens with
    | nil => cases ending <;> rfl
    | cons t tokens => exact congrArg Nat.succ (List.length_map _)

/-- Tokens that can all be read can be read at a later place. -/
theorem exists_moved (ts : List Token) (stop : Token) (count : Nat) (lineBreak : Bool) :
    ∃ last, moved ⟨ts, .ok stop⟩ count lineBreak =
      ⟨(moved ⟨ts, .ok stop⟩ count lineBreak).tokens, .ok last⟩ := by
  cases lineBreak with
  | false => exact ⟨_, rfl⟩
  | true => cases ts <;> exact ⟨_, rfl⟩

end TokenStream

end SurfaceGrammar

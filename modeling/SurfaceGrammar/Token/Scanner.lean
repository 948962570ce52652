import SurfaceGrammar.Token
import SurfaceGrammar.Token.Lexeme

/-!
# Scanning a source

A scanner stands between two characters of a source. It remembers whether a line break was
passed since the last token and whether that token ended a value, which decides if a minus
is an operator.

* `Scanner.skipTrivia`: the scanner after the white space and the comments that follow.
* `Scanner.scan`: the next token, the end of the source, or an error.
* `Scanner.length_lt_of_scan`: every token takes at least one character.
-/

namespace SurfaceGrammar

/-- A place between two characters of a source. -/
structure Scanner where
  /-- The characters that follow. -/
  rest : List Char
  /-- The number of bytes before them. -/
  offset : Nat := 0
  /-- Whether a line break was passed since the last token. -/
  lineBreak : Bool := false
  /-- Whether a value ends with the last token and no line break was passed since. -/
  afterValue : Bool := false
deriving DecidableEq

namespace Scanner

/-- The scanner before the first character of a source. -/
def ofSource (source : String) : Scanner where
  rest := source.toList

/-- Whether nothing follows. -/
def atEnd (scanner : Scanner) : Bool :=
  scanner.rest.isEmpty

/-- The scanner after a piece of white space or a comment. A line break in it ends the
previous statement, so a minus after it is a sign. -/
def skip (scanner : Scanner) (piece : List Char) : Scanner where
  rest := scanner.rest.drop piece.length
  offset := scanner.offset + Utf8.size piece
  lineBreak := scanner.lineBreak || piece.contains '\n'
  afterValue := scanner.afterValue && !piece.contains '\n'

theorem length_pos_of_take? {text piece : List Char} (h : Trivia.take? text = some piece) :
    0 < piece.length ∧ 0 < text.length := by
  unfold Trivia.take? at h
  split at h
  · simp at h
  · cases h
    simp
  · obtain ⟨body, -, rfl⟩ := Option.map_eq_some_iff.mp h
    simp
  · split at h
    · cases h
      simp
    · simp at h

/-- The scanner after the white space and the comments that follow. -/
def skipTrivia (scanner : Scanner) : Scanner :=
  match _taken : Trivia.take? scanner.rest with
  | none => scanner
  | some piece => skipTrivia (scanner.skip piece)
termination_by scanner.rest.length
decreasing_by
  have := length_pos_of_take? _taken
  simp only [skip, List.length_drop]
  omega

/-- The token with the next characters, and the scanner after them. -/
def emit (scanner : Scanner) (file : String) (lexeme : Lexeme) : Token × Scanner :=
  let stop := scanner.offset + Utf8.size lexeme.text
  let token : Token :=
    { kind := lexeme.kind
      value := lexeme.value
      span := ⟨Position.ofOffset scanner.offset file, Position.ofOffset stop file⟩
      newlineBefore := scanner.lineBreak }
  (token,
    { rest := scanner.rest.drop lexeme.text.length
      offset := stop
      lineBreak := false
      afterValue := token.endsValue })

/-- The token that stands for the end of the source. -/
def endToken (scanner : Scanner) (file : String) : Token where
  kind := .eof
  value := "EOF"
  span := ⟨Position.ofOffset scanner.offset file, Position.ofOffset scanner.offset file⟩
  newlineBefore := scanner.lineBreak

/-- What a scanner finds: a token and the scanner after it, the end, or an error. At the
end and before an error the scanner stays where it is. -/
inductive Found where
  | token (token : Token) (next : Scanner)
  | ended (token : Token) (stay : Scanner)
  | failed (error : Error) (stay : Scanner)
deriving DecidableEq

/-- What follows the white space and the comments at the scanner. -/
def scan (file : String) (scanner : Scanner) : Found :=
  let scanner := scanner.skipTrivia
  match scanner.rest with
  | [] => .ended (scanner.endToken file) scanner
  | c :: text =>
    match Lexeme.recognise scanner.afterValue c text with
    | .ok lexeme =>
      let (token, next) := scanner.emit file lexeme
      .token token next
    | .error fault =>
      .failed ⟨fault.kind, Position.ofOffset (scanner.offset + fault.index) file⟩ scanner

/-! ## Progress -/

theorem length_skipTrivia_le (scanner : Scanner) :
    scanner.skipTrivia.rest.length ≤ scanner.rest.length := by
  fun_induction skipTrivia scanner with
  | case1 => exact Nat.le_refl _
  | case2 scanner piece _ ih =>
    refine Nat.le_trans ih ?_
    simp [skip]

end Scanner

namespace Lexeme

theorem length_pos_of_unsigned? {text digits : List Char} (h : unsigned? text = some digits) :
    0 < digits.length := by
  unfold unsigned? at h
  split at h
  · simp at h
  · next hne =>
    have hpos := List.length_pos_iff.mpr hne
    split at h
    · split at h
      · cases h
        exact hpos
      · cases h
        simp only [List.length_append]
        omega
    · cases h
      exact hpos

theorem length_pos_of_symbol {c : Char} {text : List Char} {lexeme : Lexeme}
    (h : symbol c text = .ok lexeme) : 0 < lexeme.text.length := by
  unfold symbol at h
  split at h
  · next spelling kind hfind =>
    cases h
    have hall : ∀ entry ∈ symbols, 0 < entry.1.length := by decide
    exact hall _ (List.mem_of_find?_eq_some hfind)
  · cases h

theorem length_pos_of_quoted {kind : TokenKind} {quote : Char} {text : List Char}
    {lexeme : Lexeme} (h : quoted kind quote text = .ok lexeme) : 0 < lexeme.text.length := by
  unfold quoted at h
  split at h
  · cases h
  · split at h
    · cases h
    · dsimp only at h
      split at h
      · cases h
      · cases h
        simp

/-- A lexeme takes at least one character. -/
theorem length_pos_of_recognise {afterValue : Bool} {c : Char} {text : List Char}
    {lexeme : Lexeme} (h : recognise afterValue c text = .ok lexeme) :
    0 < lexeme.text.length := by
  unfold recognise at h
  split at h
  · cases h
    simp
  · split at h
    · exact length_pos_of_quoted h
    · split at h
      · exact length_pos_of_quoted h
      · split at h
        · cases h
        · split at h
          · split at h
            · split at h
              · cases h
                simp
              · cases h
                simp
            · exact length_pos_of_symbol h
          · split at h
            · next hdigits =>
              cases h
              exact length_pos_of_unsigned? hdigits
            · exact length_pos_of_symbol h

end Lexeme

namespace Scanner

/-- Every token takes at least one character. -/
theorem length_lt_of_scan {file : String} {scanner next : Scanner} {token : Token}
    (h : scan file scanner = .token token next) : next.rest.length < scanner.rest.length := by
  have hle := length_skipTrivia_le scanner
  unfold scan at h
  dsimp only at h
  split at h
  · cases h
  · next c text hrest =>
    split at h
    · next lexeme hlexeme =>
      have hpos := Lexeme.length_pos_of_recognise hlexeme
      simp only [emit, Found.token.injEq] at h
      rw [← h.2]
      simp only [List.length_drop]
      rw [hrest] at hle ⊢
      simp only [List.length_cons] at hle ⊢
      omega
    · cases h

end Scanner

end SurfaceGrammar

import SurfaceGrammar.Proofs.Token.Reads

/-!
# Texts that are put together from lexemes

A printer writes a text as a list of pieces: the texts of tokens, and spaces between them where it
pleases. The scanner finds the same tokens again if each lexeme is recognised in front of the text
of the pieces after it.

* `Piece`: a space or the text of a token.
* `Lexeme.name`, `Lexeme.mark`: the lexemes of names, operators and punctuation marks.
* `Lexeme.Stands`: a lexeme is recognised in front of a text.
* `Piece.Recognised`: each lexeme of a list of pieces stands in front of the pieces after it.
* `Piece.ofSource_of_recognised`: the tokens of a text that is put together from pieces.
-/

namespace SurfaceGrammar

/-! ## Pieces -/

namespace Lexeme

/-- The token of a lexeme, at no place in particular. -/
def token (l : Lexeme) : Token where
  kind := l.kind
  value := l.value
  span := default
  newlineBefore := false

/-- The lexeme of a name or of a word. -/
def name (text : String) : Lexeme := ⟨.identifier, text, text.toList⟩

/-- The lexeme of an operator or a punctuation mark. -/
def mark (kind : TokenKind) : Lexeme :=
  let spelling := ((symbols.find? fun entry => entry.2 = kind).map Prod.fst).getD []
  ⟨kind, String.ofList spelling, spelling⟩

end Lexeme

/-- A token without its place. -/
def Token.unplaced (t : Token) : Token := { t with span := default }

@[simp] theorem Token.kind_unplaced (t : Token) : t.unplaced.kind = t.kind := rfl

@[simp] theorem Token.value_unplaced (t : Token) : t.unplaced.value = t.value := rfl

@[simp] theorem Token.newlineBefore_unplaced (t : Token) :
    t.unplaced.newlineBefore = t.newlineBefore := rfl

theorem Token.unplaced_comp_unplaced : Token.unplaced ∘ Token.unplaced = Token.unplaced := rfl

/-- A part of a text that a printer writes. -/
inductive Piece where
  | space
  | lexeme (lexeme : Lexeme)

namespace Piece

/-- The characters of a piece. -/
def text : Piece → List Char
  | space => [' ']
  | lexeme l => l.text

/-- The characters of a list of pieces. -/
def chars (ps : List Piece) : List Char := ps.flatMap text

/-- The text of a list of pieces. -/
def source (ps : List Piece) : String := String.ofList (chars ps)

/-- The tokens of a list of pieces. -/
def tokens : List Piece → List Token
  | [] => []
  | space :: ps => tokens ps
  | lexeme l :: ps => l.token :: tokens ps

section Simp

variable (l : Lexeme) (ps qs : List Piece)

@[simp] theorem chars_nil : chars [] = [] := rfl

@[simp] theorem chars_space : chars (space :: ps) = ' ' :: chars ps := rfl

@[simp] theorem chars_lexeme : chars (lexeme l :: ps) = l.text ++ chars ps := rfl

@[simp] theorem chars_append : chars (ps ++ qs) = chars ps ++ chars qs := List.flatMap_append

@[simp] theorem tokens_nil : tokens [] = [] := rfl

@[simp] theorem tokens_space : tokens (space :: ps) = tokens ps := rfl

@[simp] theorem tokens_lexeme : tokens (lexeme l :: ps) = l.token :: tokens ps := rfl

@[simp] theorem tokens_append : tokens (ps ++ qs) = tokens ps ++ tokens qs := by
  induction ps with
  | nil => rfl
  | cons p ps ih => cases p <;> simp [ih]

end Simp

end Piece

/-! ## Recognising a lexeme -/

/-- The scanner recognises a lexeme in front of a text. -/
def Lexeme.Stands (afterValue : Bool) (l : Lexeme) (tail : List Char) : Prop :=
  ∃ c text, l.text ++ tail = c :: text ∧ Trivia.take? (c :: text) = none ∧
    recognise afterValue c text = .ok l

namespace Piece

/-- Each lexeme is recognised in front of the text of the pieces after it. -/
inductive Recognised : Bool → List Piece → Prop
  | nil {afterValue : Bool} : Recognised afterValue []
  | space {afterValue : Bool} {ps : List Piece} (tail : Recognised afterValue ps) :
      Recognised afterValue (space :: ps)
  | lexeme {afterValue : Bool} {l : Lexeme} {ps : List Piece}
      (head : l.Stands afterValue (chars ps)) (tail : Recognised l.token.endsValue ps) :
      Recognised afterValue (lexeme l :: ps)

end Piece

namespace Scanner

variable {file : String} {scanner next : Scanner} {t : Token}

theorem skipTrivia_of_none (h : Trivia.take? scanner.rest = none) :
    scanner.skipTrivia = scanner := by
  rw [skipTrivia]
  split
  · rfl
  · next piece hpiece => rw [h] at hpiece; cases hpiece

theorem skipTrivia_of_some {piece : List Char} (h : Trivia.take? scanner.rest = some piece) :
    scanner.skipTrivia = (scanner.skip piece).skipTrivia := by
  rw [skipTrivia]
  split
  · next hpiece => rw [h] at hpiece; cases hpiece
  · next other hother =>
    rw [h] at hother
    cases hother
    rfl

theorem scan_of_skipTrivia {other : Scanner} (h : scanner.skipTrivia = other.skipTrivia) :
    scanner.scan file = other.scan file := by
  simp only [scan, h]

end Scanner

/-- The stream of a scanner comes from its first scan. -/
theorem TokenStream.ofScanner_congr {file : String} {scanner other : Scanner}
    (h : scanner.scan file = other.scan file) :
    TokenStream.ofScanner file scanner = TokenStream.ofScanner file other := by
  cases hscan : other.scan file with
  | token t next =>
    rw [ofScanner_of_token hscan, ofScanner_of_token (h.trans hscan)]
  | ended t stay => rw [ofScanner_of_ended hscan, ofScanner_of_ended (h.trans hscan)]
  | failed error stay => rw [ofScanner_of_failed hscan, ofScanner_of_failed (h.trans hscan)]

namespace Piece

open Scanner

/-- What a scanner in front of a list of pieces finds. The induction is on the recognition. -/
theorem ofScanner_of_recognised (file : String) {afterValue : Bool} {ps : List Piece}
    (h : Recognised afterValue ps) : ∀ scanner : Scanner, scanner.rest = chars ps →
      scanner.lineBreak = false → scanner.afterValue = afterValue →
      ∃ ts stop, TokenStream.ofScanner file scanner = ⟨ts, .ok stop⟩ ∧
        ts.map Token.unplaced = tokens ps := by
  induction h with
  | nil =>
    intro scanner hrest hline hafter
    have hskip : scanner.skipTrivia = scanner := skipTrivia_of_none (by rw [hrest]; rfl)
    have hscan : scanner.scan file = .ended (scanner.endToken file) scanner :=
      scan_eq_ended_iff.mpr ⟨by rw [hskip, hrest, chars_nil], by rw [hskip], hskip.symm⟩
    exact ⟨[], _, TokenStream.ofScanner_of_ended hscan, rfl⟩
  | @space afterValue ps _ ih =>
    intro scanner hrest hline hafter
    have htake : Trivia.take? scanner.rest = some [' '] := by
      rw [hrest, chars_space]
      rfl
    have hscan : scanner.scan file = (scanner.skip [' ']).scan file :=
      scan_of_skipTrivia (skipTrivia_of_some htake)
    obtain ⟨ts, stop, hstream, htokens⟩ := ih (scanner.skip [' '])
      (by simp [skip, hrest]) (by simp [skip, hline]) (by simp [skip, hafter])
    exact ⟨ts, stop, by rw [TokenStream.ofScanner_congr hscan, hstream], htokens⟩
  | @lexeme afterValue l ps head _ ih =>
    intro scanner hrest hline hafter
    obtain ⟨c, text, htext, htrivia, hrecognise⟩ := head
    have hrest' : scanner.rest = c :: text := by rw [hrest, chars_lexeme, htext]
    have hskip : scanner.skipTrivia = scanner :=
      skipTrivia_of_none (by rw [hrest', htrivia])
    obtain ⟨t, next, hemit⟩ : ∃ t next, scanner.emit file l = (t, next) := ⟨_, _, rfl⟩
    have hscan : scanner.scan file = .token t next :=
      scan_eq_token_iff.mpr ⟨c, text, l, by rw [hskip, hrest'], by rw [hskip, hafter, hrecognise],
        by rw [hskip, hemit]⟩
    have hnext : next.rest = chars ps ∧ next.lineBreak = false ∧
        next.afterValue = l.token.endsValue := by
      cases hemit
      exact ⟨by simp [hrest], rfl, rfl⟩
    obtain ⟨ts, stop, hstream, htokens⟩ := ih next hnext.1 hnext.2.1 hnext.2.2
    refine ⟨t :: ts, stop, by rw [TokenStream.ofScanner_of_token hscan, hstream], ?_⟩
    cases hemit
    simp [htokens, Token.unplaced, Lexeme.token, hline]

/-- The tokens of a text that is put together from pieces. -/
theorem ofSource_of_recognised {ps : List Piece} (file : String) (h : Recognised false ps) :
    ∃ ts stop, TokenStream.ofSource (source ps) file = ⟨ts, .ok stop⟩ ∧
      ts.map Token.unplaced = tokens ps :=
  ofScanner_of_recognised file h _ (by simp [Scanner.ofSource, source]) rfl rfl

end Piece

/-! ## Names and marks -/

namespace Trivia

/-- Only a slash begins a comment. -/
theorem take?_eq_none {c : Char} {text : List Char} (hslash : c ≠ '/')
    (hspace : isWhitespace c = false) : take? (c :: text) = none := by
  unfold take?
  split
  · rfl
  · next hcons =>
    cases hcons
    exact absurd rfl hslash
  · next hcons =>
    cases hcons
    exact absurd rfl hslash
  · next hcons =>
    cases hcons
    rw [hspace]
    rfl

end Trivia

/-- The printable ASCII characters but the space are no white space. -/
theorem isWhitespace_eq_false {c : Char} (hlow : 33 ≤ c.toNat) (hhigh : c.toNat < 127) :
    isWhitespace c = false := by
  simp [isWhitespace, whitespaceRanges]
  omega

namespace Lexeme

theorem range_of_startsName {c : Char} (h : startsName c = true) :
    65 ≤ c.toNat ∧ c.toNat < 123 := by
  have hcases : (('A'.val ≤ c.val ∧ c.val ≤ 'Z'.val) || ('a'.val ≤ c.val && c.val ≤ 'z'.val) ||
      c = '_') = true := h
  simp only [Bool.or_eq_true, Bool.and_eq_true, decide_eq_true_eq, UInt32.le_iff_toNat_le,
    Char.toNat_val] at hcases
  obtain (⟨hlow, hhigh⟩ | ⟨hlow, hhigh⟩) | rfl := hcases
  · have hlow' : 65 ≤ c.toNat := hlow
    have hhigh' : c.toNat ≤ 90 := hhigh
    omega
  · have hlow' : 97 ≤ c.toNat := hlow
    have hhigh' : c.toNat ≤ 122 := hhigh
    omega
  · decide

theorem range_of_isDigit {c : Char} (h : c.isDigit = true) : 48 ≤ c.toNat ∧ c.toNat < 58 := by
  obtain ⟨hlow, hhigh⟩ := Char.isDigit_iff_toNat.mp h
  have hlow' : 48 ≤ c.toNat := hlow
  have hhigh' : c.toNat ≤ 57 := hhigh
  omega

theorem startsName_eq_false_of_isDigit {c : Char} (h : c.isDigit = true) :
    startsName c = false := by
  rw [Bool.eq_false_iff]
  intro hname
  have hlow := (range_of_startsName hname).1
  have hhigh := (range_of_isDigit h).2
  omega

theorem continuesName_of_isDigit {c : Char} (h : c.isDigit = true) : continuesName c = true := by
  simp [continuesName, Char.isAlphanum, h]

/-- A text that the scanner reads as one name. -/
def IsName (text : String) : Prop :=
  ∃ c cs, text.toList = c :: cs ∧ startsName c = true ∧ ∀ x ∈ cs, continuesName x = true

/-- Whether neither a name nor a number goes on with the text. -/
def endsWord : List Char → Bool
  | [] => true
  | '.' :: c :: _ => !c.isDigit
  | c :: _ => !continuesName c

theorem continuesName_of_endsWord {c : Char} {text : List Char} (h : endsWord (c :: text) = true) :
    continuesName c = false := by
  by_cases hpoint : c = '.'
  · rw [hpoint]
    decide
  · cases text with
    | nil => simpa [endsWord, hpoint] using h
    | cons d text => simpa [endsWord, hpoint] using h

theorem isDigit_of_startsName {c : Char} (h : startsName c = true) : c.isDigit = false := by
  rw [Bool.eq_false_iff]
  intro hdigit
  rw [startsName_eq_false_of_isDigit hdigit] at h
  cases h

/-- Neither a name nor a number goes on with a point, unless a digit follows it. -/
theorem endsWord_point {text : List Char} (h : endsWord text = true) :
    endsWord ('.' :: text) = true := by
  cases text with
  | nil => rfl
  | cons c text =>
    have hc := continuesName_of_endsWord h
    have hdigit : c.isDigit = false := by
      rw [Bool.eq_false_iff]
      intro hdigit
      rw [continuesName_of_isDigit hdigit] at hc
      cases hc
    simp [endsWord, hdigit]

theorem endsWord_point_name {name : String} {tail : List Char} (h : IsName name) :
    endsWord ('.' :: (name.toList ++ tail)) = true := by
  obtain ⟨c, cs, hname, hc, -⟩ := h
  simp [hname, endsWord, isDigit_of_startsName hc]

/-- The characters with a property in front of one without it. -/
theorem takeWhile_append_of_endsWord {p : Char → Bool} {text tail : List Char}
    (htext : ∀ x ∈ text, p x = true) (hp : ∀ x, p x = true → continuesName x = true)
    (htail : endsWord tail = true) : (text ++ tail).takeWhile p = text := by
  rw [List.takeWhile_append_of_pos htext]
  cases tail with
  | nil => simp
  | cons c tail =>
    have hc : ¬p c = true := fun h =>
      Bool.false_ne_true ((continuesName_of_endsWord htail).symm.trans (hp c h))
    rw [List.takeWhile_cons_of_neg hc, List.append_nil]

theorem stands_name {text : String} {tail : List Char} (afterValue : Bool) (h : IsName text)
    (htail : endsWord tail = true) : (name text).Stands afterValue tail := by
  obtain ⟨c, cs, htext, hc, hcs⟩ := h
  obtain ⟨hlow, hhigh⟩ := range_of_startsName hc
  refine ⟨c, cs ++ tail, by simp [name, htext], ?_, ?_⟩
  · refine Trivia.take?_eq_none ?_ (isWhitespace_eq_false (by omega) (by omega))
    rintro rfl
    exact absurd hc (by decide)
  · rw [recognise, if_pos hc, takeWhile_append_of_endsWord hcs (fun _ h => h) htail, ← htext]
    simp [name]

/-- The words that have a special meaning in some places are names. -/
theorem isName_spelling (keyword : Keyword) : IsName keyword.spelling := by
  cases keyword <;> exact ⟨_, _, rfl, rfl, List.all_eq_true.mp rfl⟩

/-- Whether no spelling of a mark begins with that of the mark and goes on. -/
def isClosed : TokenKind → Bool
  | .openParen | .closeParen | .openBracket | .closeBracket | .openCurly | .closeCurly | .comma
  | .semicolon | .dot | .dollar | .hash | .question => true
  | _ => false

/-- A mark that no other mark begins with is recognised in front of every text. -/
theorem stands_closed {kind : TokenKind} (afterValue : Bool) (tail : List Char)
    (h : isClosed kind = true) : (mark kind).Stands afterValue tail := by
  cases kind <;> first | exact ⟨_, _, rfl, rfl, rfl⟩ | cases h

/-- Every mark is recognised in front of a space. -/
theorem stands_mark {kind : TokenKind} (afterValue : Bool) (tail : List Char)
    (h : kind ∈ symbols.map Prod.snd) : (mark kind).Stands afterValue (' ' :: tail) := by
  cases kind <;> first | exact ⟨_, _, rfl, rfl, rfl⟩ | exact absurd h (by decide)

end Lexeme

end SurfaceGrammar

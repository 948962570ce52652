import SurfaceGrammar.Literal.Basic
import SurfaceGrammar.Proofs.Number.Reading
import SurfaceGrammar.Proofs.Token.Pieces

/-!
# Reading what literals were written as

The text of a literal is one token, from which its value is read back. A text between quotes is
read one escape at a time.

* `Lexeme.literal`: the lexeme of a literal.
* `Lexeme.body?_enclosed`, `Escape.decode_enclosed`: the body of a quoted text.
* `Lexeme.unsigned?_append`: the digits of a number.
* `Lexeme.stands_literal`: the text of a literal is recognised.
-/

namespace SurfaceGrammar

/-- A literal that a source can spell: its number, if it has one, is finite. -/
def Literal.IsFinite : Literal → Prop
  | number x => x.isFinite = true
  | _ => True

/-! ## Quoted texts -/

/-- A mark that stands around literals. -/
def IsQuote (quote : Char) : Prop := quote = '"' ∨ quote = '\''

/-- The digits of a byte are read back. -/
theorem hexByte_spec : ∀ n < 128, ∃ high low, Literal.hexByte n = [high, low] ∧
    Escape.isHexDigit high = true ∧ Escape.isHexDigit low = true ∧
    16 * Escape.hexValue high + Escape.hexValue low = n := by
  intro n hn
  have h : ∀ n < 128, Escape.isHexDigit (Nat.digitChar (n / 16)) = true ∧
      Escape.isHexDigit (Nat.digitChar (n % 16)) = true ∧
      16 * Escape.hexValue (Nat.digitChar (n / 16)) + Escape.hexValue (Nat.digitChar (n % 16)) =
        n := by
    decide
  exact ⟨_, _, rfl, h n hn⟩

/-- How one character of a quoted text is written. -/
inductive Escaped (quote : Char) : Char → List Char → Prop
  | plain {c : Char} (ne : c ≠ quote) (line : c ≠ '\n') (backslash : c ≠ '\\') :
      Escaped quote c [c]
  | simple {c e : Char} (value : Escape.simple? e = some c) : Escaped quote c ['\\', e]
  | byte {high low : Char} (first : Escape.isHexDigit high = true)
      (second : Escape.isHexDigit low = true) :
      Escaped quote (Char.ofNat (16 * Escape.hexValue high + Escape.hexValue low))
        ['\\', 'x', high, low]

theorem escaped_escapeIn {quote : Char} (hquote : IsQuote quote) (c : Char) :
    Escaped quote c (Literal.escapeIn quote c) := by
  unfold Literal.escapeIn Literal.escape
  split
  · next h =>
    subst h
    obtain rfl | rfl := hquote <;> exact .simple rfl
  · next hne =>
    split
    · next h => exact .simple (by rw [h]; rfl)
    · next hbackslash =>
      split
      · next h => exact .simple (by rw [h]; rfl)
      · next hline =>
        split
        · next h => exact .simple (by rw [h]; rfl)
        · split
          · next hcontrol =>
            obtain ⟨high, low, hbyte, hhigh, hlow, hvalue⟩ := hexByte_spec c.toNat (by omega)
            have hc : Char.ofNat (16 * Escape.hexValue high + Escape.hexValue low) = c := by
              rw [hvalue, Char.ofNat_toNat]
            have h : Escaped quote _ _ := .byte hhigh hlow
            rw [hc] at h
            rwa [hbyte]
          · exact .plain hne hline hbackslash

theorem ne_of_isHexDigit {quote c : Char} (hquote : IsQuote quote)
    (h : Escape.isHexDigit c = true) : c ≠ quote ∧ c ≠ '\n' ∧ c ≠ '\\' := by
  refine ⟨?_, ?_, ?_⟩
  · obtain rfl | rfl := hquote <;> rintro rfl <;> exact absurd h (by decide)
  · rintro rfl
    exact absurd h (by decide)
  · rintro rfl
    exact absurd h (by decide)

namespace Lexeme

/-- A plain character of a body. -/
theorem body?_cons {quote c : Char} (text : List Char) (hne : c ≠ quote) (hline : c ≠ '\n')
    (hbackslash : c ≠ '\\') : body? quote (c :: text) = (body? quote text).map (c :: ·) := by
  rw [body?.eq_def]
  dsimp only
  rw [if_neg hne, if_neg hline, if_neg hbackslash]

/-- A backslash of a body and the character after it. -/
theorem body?_escape {quote e : Char} (text : List Char) (hquote : IsQuote quote) (he : e ≠ '\n') :
    body? quote ('\\' :: e :: text) = (body? quote text).map fun body => '\\' :: e :: body := by
  have hne : '\\' ≠ quote := by obtain rfl | rfl := hquote <;> decide
  rw [body?.eq_def]
  dsimp only
  rw [if_neg hne, if_neg (by decide), if_pos rfl, if_neg he]

theorem body?_escaped {quote c : Char} {written : List Char} (text : List Char)
    (hquote : IsQuote quote) (h : Escaped quote c written) :
    body? quote (written ++ text) = (body? quote text).map (written ++ ·) := by
  cases h with
  | plain hne hline hbackslash => exact body?_cons text hne hline hbackslash
  | simple hvalue =>
    refine body?_escape text hquote ?_
    rintro rfl
    cases hvalue
  | byte hhigh hlow =>
    obtain ⟨hhigh₁, hhigh₂, hhigh₃⟩ := ne_of_isHexDigit hquote hhigh
    obtain ⟨hlow₁, hlow₂, hlow₃⟩ := ne_of_isHexDigit hquote hlow
    simp only [List.cons_append, List.nil_append]
    rw [body?_escape _ hquote (by decide), body?_cons _ hhigh₁ hhigh₂ hhigh₃,
      body?_cons _ hlow₁ hlow₂ hlow₃, Option.map_map, Option.map_map]
    rfl

/-- The body of a quoted text ends with its quote. -/
theorem body?_enclosed {quote : Char} (hquote : IsQuote quote) (text tail : List Char) :
    body? quote (text.flatMap (Literal.escapeIn quote) ++ quote :: tail) =
      some (text.flatMap (Literal.escapeIn quote)) := by
  induction text with
  | nil =>
    rw [List.flatMap_nil, List.nil_append, body?.eq_def]
    exact if_pos rfl
  | cons c text ih =>
    rw [List.flatMap_cons, List.append_assoc,
      body?_escaped _ hquote (escaped_escapeIn hquote c), ih]
    rfl

end Lexeme

namespace Escape

theorem decodeFrom_escaped {quote c : Char} {written : List Char} (index : Nat) (body : List Char)
    (h : Escaped quote c written) : ∃ index',
      decodeFrom index (written ++ body) = (c :: ·) <$> decodeFrom index' body := by
  cases h with
  | plain _ _ hbackslash =>
    refine ⟨index + c.utf8Size, ?_⟩
    rw [List.singleton_append, decodeFrom.eq_def]
    exact if_pos hbackslash
  | @simple _ e hvalue =>
    have hx : e ≠ 'x' := by
      rintro rfl
      cases hvalue
    refine ⟨index + 2, ?_⟩
    rw [decodeFrom.eq_def]
    simp [hx, hvalue]
  | byte hhigh hlow =>
    refine ⟨index + 4, ?_⟩
    rw [decodeFrom.eq_def]
    simp [hhigh, hlow]

/-- The body of a quoted text stands for the text. -/
theorem decodeFrom_enclosed {quote : Char} (hquote : IsQuote quote) (text : List Char) :
    ∀ index, decodeFrom index (text.flatMap (Literal.escapeIn quote)) = .ok text := by
  induction text with
  | nil => exact fun _ => rfl
  | cons c text ih =>
    intro index
    obtain ⟨index', h⟩ := decodeFrom_escaped index (text.flatMap (Literal.escapeIn quote))
      (escaped_escapeIn hquote c)
    rw [List.flatMap_cons, h, ih]
    rfl

end Escape

namespace Lexeme

/-- A quoted text is one lexeme. -/
theorem quoted_enclosed (kind : TokenKind) {quote : Char} {text : List Char}
    (hquote : IsQuote quote) (hkind : kind = .char → text.length = 1) (tail : List Char) :
    quoted kind quote (text.flatMap (Literal.escapeIn quote) ++ quote :: tail) =
      .ok ⟨kind, String.ofList text, Literal.enclose quote text⟩ := by
  have hlength : ¬(kind = .char ∧ text.length ≠ 1) := fun h => h.2 (hkind h.1)
  unfold quoted
  simp only [body?_enclosed hquote, Escape.decode, Escape.decodeFrom_enclosed hquote]
  rw [if_neg hlength]
  rfl

/-! ## Numbers -/

/-- The digits of a number in front of what no number goes on with. -/
theorem unsigned?_append {text tail : List Char} (h : Decimal.Unsigned text)
    (htail : endsWord tail = true) : unsigned? (text ++ tail) = some text := by
  unfold unsigned?
  cases h with
  | whole hne hall =>
    rw [takeWhile_append_of_endsWord hall (fun _ => continuesName_of_isDigit) htail]
    split
    · exact absurd rfl hne
    · rw [List.drop_left]
      split
      · next rest =>
        have hnone : rest.takeWhile Char.isDigit = [] := by
          cases rest with
          | nil => rfl
          | cons c rest => exact List.takeWhile_cons_of_neg (by simpa [endsWord] using htail)
        rw [hnone]
      · rfl
  | @fraction digits fraction hne hall hfraction hfractionAll =>
    rw [List.append_assoc, List.cons_append, Decimal.takeWhile_isDigit hall]
    split
    · exact absurd rfl hne
    · rw [List.drop_left]
      simp only [takeWhile_append_of_endsWord hfractionAll (fun _ => continuesName_of_isDigit)
        htail]

theorem recognise_digit {afterValue : Bool} {c : Char} {text digits : List Char}
    (hc : c.isDigit = true) (h : unsigned? (c :: text) = some digits) :
    recognise afterValue c text = .ok ⟨.number, String.ofList digits, digits⟩ := by
  have hne : ∀ d : Char, d.isDigit = false → c ≠ d := by
    rintro d hd rfl
    rw [hd] at hc
    cases hc
  unfold recognise
  rw [if_neg (by simp [startsName_eq_false_of_isDigit hc]), if_neg (hne _ (by decide)),
    if_neg (hne _ (by decide)), if_neg (fun h => hne '/' (by decide) h.1),
    if_neg (hne _ (by decide)), h]

theorem recognise_minus {text digits : List Char} (h : unsigned? text = some digits) :
    recognise false '-' text = .ok ⟨.number, String.ofList ('-' :: digits), '-' :: digits⟩ := by
  unfold recognise
  rw [if_neg (by decide), if_neg (by decide), if_neg (by decide),
    if_neg (fun h => absurd h.1 (by decide)), if_pos rfl, h]
  rfl

theorem stands_unsigned {text tail : List Char} (afterValue : Bool) (h : Decimal.Unsigned text)
    (htail : endsWord tail = true) :
    (⟨.number, String.ofList text, text⟩ : Lexeme).Stands afterValue tail := by
  have hdigits := unsigned?_append h htail
  obtain ⟨c, rest, rfl, hc⟩ := h.head?
  obtain ⟨hlow, hhigh⟩ := range_of_isDigit hc
  refine ⟨c, rest ++ tail, rfl, ?_, recognise_digit hc hdigits⟩
  refine Trivia.take?_eq_none ?_ (isWhitespace_eq_false (by omega) (by omega))
  rintro rfl
  exact absurd hc (by decide)

/-! ## Literals -/

/-- The lexeme of a literal. -/
def literal : Literal → Lexeme
  | .number x => ⟨.number, String.ofList (Decimal.write x), Decimal.write x⟩
  | .string text => ⟨.string, text, Literal.enclose '"' text.toList⟩
  | .char c => ⟨.char, String.ofList [c], Literal.enclose '\'' [c]⟩
  | .boolean true => name Keyword.true.spelling
  | .boolean false => name Keyword.false.spelling

/-- The text of a literal is the one that a source spells it with. -/
theorem text_literal (value : Literal) : (literal value).text = value.source.toList := by
  match value with
  | .number _ | .string _ | .char _ => simp [literal, Literal.source]
  | .boolean true | .boolean false => rfl

/-- A minus right after a literal is an operator. -/
theorem endsValue_literal (value : Literal) : (literal value).token.endsValue = true := by
  match value with
  | .number _ | .string _ | .char _ | .boolean true | .boolean false => rfl

theorem stands_number {x : Binary64} {tail : List Char} (h : x.isFinite = true)
    (htail : endsWord tail = true) : (literal (.number x)).Stands false tail := by
  have hunsigned := Decimal.unsigned_writeMagnitude (Binary64.magnitude_lt h)
  change Stands false ⟨.number, String.ofList (Decimal.write x), Decimal.write x⟩ tail
  rw [Decimal.write_of_isFinite h]
  cases x.isNegative with
  | false => exact stands_unsigned false hunsigned htail
  | true =>
    refine ⟨'-', _, rfl, ?_, recognise_minus (unsigned?_append hunsigned htail)⟩
    exact Trivia.take?_eq_none (by decide) (by decide)

theorem stands_enclosed {kind : TokenKind} {quote : Char} {text : List Char} (afterValue : Bool)
    (tail : List Char) (hkind : kind = .string ∧ quote = '"' ∨
      kind = .char ∧ quote = '\'' ∧ text.length = 1) :
    (⟨kind, String.ofList text, Literal.enclose quote text⟩ : Lexeme).Stands afterValue tail := by
  have htext : Literal.enclose quote text ++ tail =
      quote :: (text.flatMap (Literal.escapeIn quote) ++ quote :: tail) := by
    simp [Literal.enclose]
  obtain ⟨rfl, rfl⟩ | ⟨rfl, rfl, hlength⟩ := hkind
  · exact ⟨_, _, htext, rfl, quoted_enclosed .string (.inl rfl) nofun tail⟩
  · exact ⟨_, _, htext, rfl, quoted_enclosed .char (.inr rfl) (fun _ => hlength) tail⟩

/-- The text of a literal is recognised where no value stands before it. -/
theorem stands_literal {value : Literal} {tail : List Char} (h : value.IsFinite)
    (htail : endsWord tail = true) : (literal value).Stands false tail := by
  match value with
  | .number x => exact stands_number h htail
  | .string text =>
    have hstands : Stands false ⟨.string, String.ofList text.toList, _⟩ tail :=
      stands_enclosed false tail (.inl ⟨rfl, rfl⟩)
    rwa [String.ofList_toList] at hstands
  | .char c => exact stands_enclosed false tail (.inr ⟨rfl, rfl, rfl⟩)
  | .boolean true => exact stands_name false (isName_spelling .true) htail
  | .boolean false => exact stands_name false (isName_spelling .false) htail

end Lexeme

end SurfaceGrammar

import SurfaceGrammar.Proofs.Token.Pieces

/-!
# What lexemes look like

The rules by which the beginning of a text is read, turned into descriptions of what is found
there.

* `Trivia.take?_eq_some_iff`: white space and comments.
* `Lexeme.body?_eq_some_iff`, `Lexeme.quoted_eq_ok_iff`: literals between quotes.
* `Lexeme.unsigned?_eq_some_iff`: numbers without a sign.
* `Lexeme.symbol_eq_ok_iff`: operators and punctuation marks.
* `Lexeme.recognise_eq_ok_iff`: all lexemes.
* `Lexeme.prefix_of_recognise`: a lexeme stands at the beginning of the text.
-/

namespace SurfaceGrammar

/-! ## White space and comments -/

namespace Trivia

variable {text piece : List Char}

/-- What stands at the beginning of a text: a white space character, a line comment or a block
comment. -/
theorem take?_eq_some_iff : take? text = some piece ↔
    (∃ c rest, text = c :: rest ∧ isWhitespace c = true ∧ piece = [c]) ∨
    (∃ rest, text = '/' :: '/' :: rest ∧ piece = '/' :: '/' :: rest.takeWhile (· ≠ '\n')) ∨
    ∃ rest body, text = '/' :: '*' :: rest ∧ throughCommentEnd? rest = some body ∧
      piece = '/' :: '*' :: body := by
  constructor
  · intro h
    unfold take? at h
    split at h
    · cases h
    · next rest =>
      cases h
      exact .inr (.inl ⟨rest, rfl, rfl⟩)
    · next rest =>
      obtain ⟨body, hbody, rfl⟩ := Option.map_eq_some_iff.mp h
      exact .inr (.inr ⟨rest, body, rfl, hbody, rfl⟩)
    · next c rest _ _ =>
      split at h
      · next hblank =>
        cases h
        exact .inl ⟨c, rest, rfl, hblank, rfl⟩
      · cases h
  · rintro (⟨c, rest, rfl, hblank, rfl⟩ | ⟨rest, rfl, rfl⟩ | ⟨rest, body, rfl, hbody, rfl⟩)
    · rw [take?, if_pos hblank]
      · rintro other rfl
        exact absurd hblank (by decide)
      · rintro other rfl
        exact absurd hblank (by decide)
    · rfl
    · rw [take?, hbody]
      rfl

theorem prefix_of_throughCommentEnd? (h : throughCommentEnd? text = some piece) :
    piece <+: text := by
  fun_induction throughCommentEnd? text generalizing piece with
  | case1 => cases h
  | case2 text =>
    cases h
    exact ⟨text, rfl⟩
  | case3 c text _ ih =>
    obtain ⟨body, hbody, rfl⟩ := Option.map_eq_some_iff.mp h
    exact List.cons_prefix_cons.mpr ⟨rfl, ih hbody⟩

theorem prefix_of_take? (h : take? text = some piece) : piece <+: text := by
  obtain ⟨c, rest, rfl, -, rfl⟩ | ⟨rest, rfl, rfl⟩ | ⟨rest, body, rfl, hbody, rfl⟩ :=
    take?_eq_some_iff.mp h
  · exact ⟨rest, rfl⟩
  · simp [List.cons_prefix_cons, List.takeWhile_prefix]
  · simp [List.cons_prefix_cons, prefix_of_throughCommentEnd? hbody]

end Trivia

/-! ## Lexemes -/

namespace Lexeme

/-- The body of a literal: no quote, no line feed, and a character after every backslash. -/
inductive InsideQuotes (quote : Char) : List Char → Prop
  | nil : InsideQuotes quote []
  | plain {c body} (hquote : c ≠ quote) (hline : c ≠ '\n') (hbackslash : c ≠ '\\')
      (tail : InsideQuotes quote body) : InsideQuotes quote (c :: body)
  | escape {e body} (hquote : '\\' ≠ quote) (hline : e ≠ '\n') (tail : InsideQuotes quote body) :
      InsideQuotes quote ('\\' :: e :: body)

variable {afterValue : Bool} {c quote : Char} {kind : TokenKind} {text digits body : List Char}
  {l : Lexeme}

/-! ### Literals between quotes -/

/-- What the body of a literal at the beginning of a text is. -/
theorem body?_eq_some_iff :
    body? quote text = some body ↔
      InsideQuotes quote body ∧ ∃ rest, text = body ++ quote :: rest := by
  constructor
  · intro h
    fun_induction body? quote text generalizing body with
    | case1 => cases h
    | case2 text =>
      cases h
      exact ⟨.nil, text, rfl⟩
    | case3 => cases h
    | case4 => cases h
    | case5 => cases h
    | case6 e text he hquote _ ih =>
      obtain ⟨body, hbody, rfl⟩ := Option.map_eq_some_iff.mp h
      obtain ⟨hinside, rest, rfl⟩ := ih hbody
      exact ⟨.escape hquote he hinside, rest, rfl⟩
    | case7 c text hquote hline hbackslash ih =>
      obtain ⟨body, hbody, rfl⟩ := Option.map_eq_some_iff.mp h
      obtain ⟨hinside, rest, rfl⟩ := ih hbody
      exact ⟨.plain hquote hline hbackslash hinside, rest, rfl⟩
  · rintro ⟨hbody, rest, rfl⟩
    induction hbody with
    | nil => rw [List.nil_append, body?.eq_def]; exact if_pos rfl
    | plain hquote hline hbackslash _ ih =>
      rw [List.cons_append, body?.eq_def]
      dsimp only
      rw [if_neg hquote, if_neg hline, if_neg hbackslash, ih]
      rfl
    | escape hquote hline _ ih =>
      rw [List.cons_append, List.cons_append, body?.eq_def]
      dsimp only
      rw [if_neg hquote, if_neg (by decide), if_pos rfl, if_neg hline, ih]
      rfl

/-- What a literal between quotes at the beginning of a text is. -/
theorem quoted_eq_ok_iff : quoted kind quote text = .ok l ↔
    ∃ body value, body? quote text = some body ∧ Escape.decode body = .ok value ∧
      (kind = .char → value.length = 1) ∧
      l = ⟨kind, String.ofList value, quote :: body ++ [quote]⟩ := by
  unfold quoted
  constructor
  · intro h
    split at h
    · cases h
    · next body hbody =>
      split at h
      · cases h
      · next value hvalue =>
        dsimp only at h
        split at h
        · cases h
        · next hsingle =>
          cases h
          exact ⟨body, value, hbody, hvalue,
            fun hkind => Decidable.byContradiction fun hne => hsingle ⟨hkind, hne⟩, rfl⟩
  · rintro ⟨body, value, hbody, hvalue, hsingle, rfl⟩
    rw [hbody]
    dsimp only
    rw [hvalue]
    dsimp only
    rw [if_neg fun h => h.2 (hsingle h.1)]

theorem prefix_of_quoted (h : quoted kind quote text = .ok l) : l.text <+: quote :: text := by
  obtain ⟨body, value, hbody, -, -, rfl⟩ := quoted_eq_ok_iff.mp h
  obtain ⟨-, rest, rfl⟩ := body?_eq_some_iff.mp hbody
  exact ⟨rest, by simp⟩

/-! ### Numbers -/

/-- No digit goes on. -/
def EndsDigits (rest : List Char) : Prop :=
  ∀ c ∈ rest.head?, c.isDigit = false

/-- A point and a digit follow. -/
def BeginsFraction (rest : List Char) : Prop :=
  ∃ c more, rest = '.' :: c :: more ∧ c.isDigit = true

theorem takeWhile_isDigit_append {rest : List Char} (h : ∀ x ∈ digits, x.isDigit = true)
    (hrest : EndsDigits rest) : (digits ++ rest).takeWhile Char.isDigit = digits := by
  rw [List.takeWhile_append_of_pos h]
  cases rest with
  | nil => simp
  | cons c rest => rw [List.takeWhile_cons_of_neg (by simp [hrest c rfl]), List.append_nil]

/-- The digits at the beginning of a text. -/
theorem exists_digits (text : List Char) : ∃ whole rest, text = whole ++ rest ∧
    (∀ x ∈ whole, x.isDigit = true) ∧ EndsDigits rest := by
  refine ⟨text.takeWhile Char.isDigit, text.dropWhile Char.isDigit,
    List.takeWhile_append_dropWhile.symm, List.all_eq_true.mp List.all_takeWhile, fun c hc => ?_⟩
  have hhead := List.head?_dropWhile_not Char.isDigit text
  rw [Option.mem_def.mp hc] at hhead
  exact hhead

/-- What a number without a sign at the beginning of a text is. -/
theorem unsigned?_eq_some_iff : unsigned? text = some digits ↔ ∃ whole rest, whole ≠ [] ∧
    (∀ x ∈ whole, x.isDigit = true) ∧ text = digits ++ rest ∧ EndsDigits rest ∧
    ((digits = whole ∧ ¬BeginsFraction rest) ∨
      ∃ fraction, fraction ≠ [] ∧ (∀ x ∈ fraction, x.isDigit = true) ∧
        digits = whole ++ '.' :: fraction) := by
  constructor
  · intro h
    obtain ⟨whole, rest, rfl, hwhole, hrest⟩ := exists_digits text
    unfold unsigned? at h
    rw [takeWhile_isDigit_append hwhole hrest] at h
    split at h
    · cases h
    · next hne =>
      rw [List.drop_left] at h
      split at h
      · next tail =>
        obtain ⟨fraction, end', rfl, hfraction, hend⟩ := exists_digits tail
        rw [takeWhile_isDigit_append hfraction hend] at h
        split at h
        · cases h
          refine ⟨digits, _, hne, hwhole, rfl, hrest, .inl ⟨rfl, ?_⟩⟩
          rintro ⟨c, more, hcons, hc⟩
          cases hcons
          rw [hend c rfl] at hc
          cases hc
        · next hfractionNe =>
          cases h
          exact ⟨whole, end', hne, hwhole, by simp, hend,
            .inr ⟨fraction, hfractionNe, hfraction, rfl⟩⟩
      · next hpoint =>
        cases h
        refine ⟨digits, rest, hne, hwhole, rfl, hrest, .inl ⟨rfl, ?_⟩⟩
        rintro ⟨c, more, rfl, -⟩
        exact hpoint _ rfl
  · rintro ⟨whole, rest, hne, hwhole, rfl, hrest, ⟨rfl, hfraction⟩ | ⟨fraction, hfractionNe,
      hfraction, rfl⟩⟩
    · unfold unsigned?
      rw [takeWhile_isDigit_append hwhole hrest]
      split
      · exact absurd rfl hne
      · rw [List.drop_left]
        split
        · next tail =>
          have hnone : tail.takeWhile Char.isDigit = [] := by
            cases tail with
            | nil => rfl
            | cons c tail =>
              refine List.takeWhile_cons_of_neg fun hc => hfraction ⟨c, tail, rfl, hc⟩
          rw [hnone]
        · rfl
    · have hpoint : EndsDigits ('.' :: (fraction ++ rest)) := by
        rintro c ⟨⟩
        rfl
      unfold unsigned?
      rw [List.append_assoc, List.cons_append, takeWhile_isDigit_append hwhole hpoint]
      split
      · exact absurd rfl hne
      · rw [List.drop_left]
        simp only [takeWhile_isDigit_append hfraction hrest]

/-- No number begins with what is not a digit. -/
theorem unsigned?_eq_none_iff : unsigned? text = none ↔ text.takeWhile Char.isDigit = [] := by
  unfold unsigned?
  split
  · simp [*]
  · next hne =>
    refine ⟨fun h => ?_, fun h => absurd h hne⟩
    split at h
    · split at h <;> cases h
    · cases h

theorem unsigned?_eq_none (hc : c.isDigit = false) : unsigned? (c :: text) = none :=
  unsigned?_eq_none_iff.mpr (List.takeWhile_cons_of_neg (by simp [hc]))

theorem isDigit_of_unsigned? (h : unsigned? (c :: text) = some digits) : c.isDigit = true := by
  rw [← Bool.not_eq_false]
  intro hc
  rw [unsigned?_eq_none hc] at h
  cases h

theorem exists_unsigned? (text : List Char) (hc : c.isDigit = true) :
    ∃ digits, unsigned? (c :: text) = some digits := by
  cases h : unsigned? (c :: text) with
  | some digits => exact ⟨digits, rfl⟩
  | none =>
    rw [unsigned?_eq_none_iff, List.takeWhile_cons_of_pos hc] at h
    cases h

theorem prefix_of_unsigned? (h : unsigned? text = some digits) : digits <+: text := by
  obtain ⟨whole, rest, -, -, rfl, -⟩ := unsigned?_eq_some_iff.mp h
  exact List.prefix_append digits rest

/-! ### Symbols -/

/-- What an operator or punctuation mark at the beginning of a text is. -/
theorem symbol_eq_ok_iff : symbol c text = .ok l ↔ ∃ spelling kind before after,
    spelling <+: c :: text ∧ symbols = before ++ (spelling, kind) :: after ∧
      (∀ entry ∈ before, ¬entry.1 <+: c :: text) ∧
      l = ⟨kind, String.ofList spelling, spelling⟩ := by
  unfold symbol
  constructor
  · intro h
    split at h
    · next spelling kind hfind =>
      cases h
      obtain ⟨hstarts, before, after, hsymbols, hbefore⟩ := List.find?_eq_some_iff_append.mp hfind
      refine ⟨spelling, kind, before, after, List.isPrefixOf_iff_prefix.mp hstarts, hsymbols,
        fun entry hentry hmem => ?_, rfl⟩
      have hnot : (!entry.1.isPrefixOf (c :: text)) = true := hbefore entry hentry
      rw [List.isPrefixOf_iff_prefix.mpr hmem] at hnot
      cases hnot
    · cases h
  · rintro ⟨spelling, kind, before, after, hstarts, hsymbols, hbefore, rfl⟩
    generalize hfound : symbols.find? _ = found
    have hfind : found = some (spelling, kind) := by
      refine hfound.symm.trans (List.find?_eq_some_iff_append.mpr
        ⟨List.isPrefixOf_iff_prefix.mpr hstarts, before, after, hsymbols, fun entry hentry => ?_⟩)
      rw [Bool.not_eq_true', Bool.eq_false_iff]
      exact fun hmem => hbefore entry hentry (List.isPrefixOf_iff_prefix.mp hmem)
    rw [hfind]

theorem prefix_of_symbol (h : symbol c text = .ok l) : l.text <+: c :: text := by
  obtain ⟨spelling, kind, before, after, hstarts, -, -, rfl⟩ := symbol_eq_ok_iff.mp h
  exact hstarts

/-! ### All lexemes -/

/-- How a text begins with a lexeme. -/
inductive Begins (afterValue : Bool) : Char → List Char → Lexeme → Prop
  | name {x rest} (starts : startsName x = true) :
      Begins afterValue x rest ⟨.identifier, String.ofList (x :: rest.takeWhile continuesName),
        x :: rest.takeWhile continuesName⟩
  | string {rest lexeme} (literal : quoted .string '"' rest = .ok lexeme) :
      Begins afterValue '"' rest lexeme
  | char {rest lexeme} (literal : quoted .char '\'' rest = .ok lexeme) :
      Begins afterValue '\'' rest lexeme
  | minus {rest number} (operand : unsigned? rest = some number) (operator : afterValue = true) :
      Begins afterValue '-' rest ⟨.dash, "-", ['-']⟩
  | negative {rest number} (operand : unsigned? rest = some number) (sign : afterValue = false) :
      Begins afterValue '-' rest
        ⟨.number, String.ofList ('-' :: number), '-' :: number⟩
  | number {x rest number} (starts : x.isDigit = true)
      (digits : unsigned? (x :: rest) = some number) :
      Begins afterValue x rest ⟨.number, String.ofList number, number⟩
  | symbol {x rest lexeme} (noName : startsName x = false) (noDigit : x.isDigit = false)
      (noQuote : x ≠ '"' ∧ x ≠ '\'') (noComment : ¬(x = '/' ∧ rest.head? = some '*'))
      (noNumber : x = '-' → unsigned? rest = none) (mark : symbol x rest = .ok lexeme) :
      Begins afterValue x rest lexeme

theorem begins_of_recognise (h : recognise afterValue c text = .ok l) :
    Begins afterValue c text l := by
  unfold recognise at h
  split at h
  · next hname =>
    cases h
    exact .name hname
  · next hname =>
    rw [Bool.not_eq_true] at hname
    split at h
    · next hquote =>
      subst hquote
      exact .string h
    · next hstring =>
      split at h
      · next hquote =>
        subst hquote
        exact .char h
      · next hchar =>
        split at h
        · cases h
        · next hcomment =>
          split at h
          · next hminus =>
            subst hminus
            split at h
            · next digits hdigits =>
              split at h
              · next hvalue =>
                cases h
                exact .minus hdigits hvalue
              · next hvalue =>
                cases h
                exact .negative hdigits (Bool.not_eq_true _ ▸ hvalue)
            · next hnone => exact .symbol hname rfl ⟨hstring, hchar⟩ hcomment (fun _ => hnone) h
          · next hminus =>
            split at h
            · next digits hdigits =>
              cases h
              exact .number (isDigit_of_unsigned? hdigits) hdigits
            · next hnone =>
              cases hdigit : c.isDigit with
              | false =>
                exact .symbol hname hdigit ⟨hstring, hchar⟩ hcomment (fun h => absurd h hminus) h
              | true =>
                obtain ⟨digits, hdigits⟩ := exists_unsigned? text hdigit
                rw [hdigits] at hnone
                cases hnone

theorem recognise_of_begins (h : Begins afterValue c text l) :
    recognise afterValue c text = .ok l := by
  cases h with
  | name starts => rw [recognise, if_pos starts]
  | string literal => rw [recognise, if_neg (by decide), if_pos rfl, literal]
  | char literal => rw [recognise, if_neg (by decide), if_neg (by decide), if_pos rfl, literal]
  | minus operand operator =>
    rw [recognise, if_neg (by decide), if_neg (by decide), if_neg (by decide),
      if_neg (fun h => absurd h.1 (by decide)), if_pos rfl, operand]
    simp only [operator, if_true]
  | negative operand sign =>
    rw [recognise, if_neg (by decide), if_neg (by decide), if_neg (by decide),
      if_neg (fun h => absurd h.1 (by decide)), if_pos rfl, operand]
    simp only [sign, Bool.false_eq_true, if_false]
  | number starts digits =>
    have hne : ∀ d : Char, d.isDigit = false → c ≠ d := by
      rintro d hd rfl
      rw [hd] at starts
      cases starts
    rw [recognise, if_neg (by simp [startsName_eq_false_of_isDigit starts]),
      if_neg (hne _ (by decide)), if_neg (hne _ (by decide)),
      if_neg (fun h => hne '/' (by decide) h.1), if_neg (hne _ (by decide)), digits]
  | symbol noName noDigit noQuote noComment noNumber mark =>
    rw [recognise, if_neg (by simp [noName]), if_neg noQuote.1, if_neg noQuote.2,
      if_neg noComment]
    split
    · next hminus => rw [noNumber hminus, mark]
    · rw [unsigned?_eq_none noDigit, mark]

/-- What a text begins with. -/
theorem recognise_eq_ok_iff :
    recognise afterValue c text = .ok l ↔ Begins afterValue c text l :=
  ⟨begins_of_recognise, recognise_of_begins⟩

/-- A lexeme stands at the beginning of the text. -/
theorem prefix_of_recognise (h : recognise afterValue c text = .ok l) : l.text <+: c :: text := by
  cases recognise_eq_ok_iff.mp h with
  | name starts => exact List.cons_prefix_cons.mpr ⟨rfl, List.takeWhile_prefix _⟩
  | string literal => exact prefix_of_quoted literal
  | char literal => exact prefix_of_quoted literal
  | minus operand operator => exact ⟨text, rfl⟩
  | negative operand sign => exact List.cons_prefix_cons.mpr ⟨rfl, prefix_of_unsigned? operand⟩
  | number starts digits => exact prefix_of_unsigned? digits
  | symbol noName noDigit noQuote noComment noNumber mark => exact prefix_of_symbol mark

end Lexeme

end SurfaceGrammar

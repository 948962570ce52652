import SurfaceGrammar.Proofs.Number.Reading
import SurfaceGrammar.Proofs.Token.Gaps
import SurfaceGrammar.Proofs.Token.Tiling

/-!
# Line breaks and signs

Two marks on a scanner decide how the next token is read, and both only depend on the token before
it and the gap in between. A token is marked as one on a new line exactly if there is a line feed in
the gap, in white space or in a comment. A minus before a digit is the sign of a number at the
beginning, behind a line feed and behind a token with which no value ends. Elsewhere it is an
operator, and the number behind it is the next token.

* `AllowsSign`: whether a minus before a digit is a sign.
* `Scanner.Follows.lineBreak_iff`, `Scanner.Follows.afterValue_iff`: what a scanner remembers
  behind a gap.
* `IsSigned`, `IsMinus`: the two ways to read a minus before a digit.
* `Marked`: tokens that tile a text, with the marks that their gaps give them.
* `TokenStream.marked_ofScanner`: the tokens that a scanner finds.
* `marked_of_tokenize`: the tokens of a source.
-/

namespace SurfaceGrammar

variable {file : String} {previous : Option Token} {gap : List Char}

/-! ## The marks behind a gap -/

/-- A minus before a digit is a sign: no token stands before it, or a line feed stands in the gap
between the two, or no value ends with the token. -/
def AllowsSign (previous : Option Token) (gap : List Char) : Prop :=
  previous = none ∨ '\n' ∈ gap ∨ ∃ t, previous = some t ∧ t.endsValue = false

theorem Lexeme.unsigned_of_unsigned? {text digits : List Char} (h : unsigned? text = some digits) :
    Decimal.Unsigned digits := by
  obtain ⟨whole, rest, hne, hwhole, -, -, ⟨rfl, -⟩ | ⟨fraction, hfraction, hall, rfl⟩⟩ :=
    unsigned?_eq_some_iff.mp h
  · exact .whole hne hwhole
  · exact .fraction hne hwhole hfraction hall

namespace Scanner

variable {scanner next : Scanner} {t : Token}

/-- A scanner that has just read a token, or nothing so far. -/
structure Follows (previous : Option Token) (scanner : Scanner) : Prop where
  lineBreak : scanner.lineBreak = false
  afterValue : scanner.afterValue = previous.any Token.endsValue

theorem Follows.ofSource (source : String) : Follows none (ofSource source) :=
  ⟨rfl, rfl⟩

theorem Follows.of_scan (h : scanner.scan file = .token t next) : Follows (some t) next := by
  obtain ⟨c, text, l, -, -, hemit⟩ := scan_eq_token_iff.mp h
  cases hemit
  exact ⟨rfl, rfl⟩

theorem Follows.lineBreak_iff (h : Follows previous scanner) :
    scanner.skipTrivia.lineBreak = true ↔ '\n' ∈ scanner.gap := by
  rw [(skipTrivia_of_gap scanner).2.1, h.lineBreak, Bool.false_or, List.contains_iff_mem]

theorem Follows.afterValue_iff (h : Follows previous scanner) :
    scanner.skipTrivia.afterValue = false ↔ AllowsSign previous scanner.gap := by
  rw [(skipTrivia_of_gap scanner).2.2, h.afterValue, Bool.and_eq_false_iff, Bool.not_eq_false',
    List.contains_iff_mem]
  cases previous with
  | none => simp [AllowsSign]
  | some t => simp [AllowsSign, or_comm]

end Scanner

/-! ## A minus before a digit -/

/-- A token is a number with its sign. -/
structure IsSigned (t : Token) (text : List Char) : Prop where
  kind : t.kind = .number
  text : ∃ digits, Decimal.Unsigned digits ∧ text = '-' :: digits

/-- A token is a minus, and the next one is a number without a sign that begins right behind it. -/
structure IsMinus (file : String) (offset : Nat) (t : Token) (text rest : List Char)
    (ts : List Token) : Prop where
  kind : t.kind = .dash
  text : text = ['-']
  operand : ∃ number us digits back, ts = number :: us ∧ rest = digits ++ back ∧
    Decimal.Unsigned digits ∧ number.kind = .number ∧ number.Covers file (offset + 1) digits

namespace Scanner

variable {scanner next : Scanner} {t : Token} {d : Char} {more : List Char}

/-- A number without a sign is read where a digit stands. -/
theorem exists_scan_of_digit (file : String) (hrest : scanner.rest = d :: more)
    (hd : d.isDigit = true) : ∃ number after digits back,
      scanner.scan file = .token number after ∧ scanner.rest = digits ++ back ∧
      Decimal.Unsigned digits ∧ number.kind = .number ∧
      number.Covers file scanner.offset digits := by
  obtain ⟨digits, hdigits⟩ := Lexeme.exists_unsigned? more hd
  obtain ⟨back, hback⟩ := Lexeme.prefix_of_unsigned? hdigits
  have hstop : Trivia.take? scanner.rest = none := by
    obtain ⟨hlow, hhigh⟩ := Lexeme.range_of_isDigit hd
    rw [hrest]
    refine Trivia.take?_eq_none ?_ (isWhitespace_eq_false (by omega) (by omega))
    rintro rfl
    cases hd
  have hl : Lexeme.recognise scanner.afterValue d more =
      .ok ⟨.number, String.ofList digits, digits⟩ :=
    Lexeme.recognise_eq_ok_iff.mpr (.number hd hdigits)
  have hscan : scanner.scan file = .token _ _ := scan_eq_token_iff.mpr
    ⟨d, more, _, by rw [skipTrivia_of_none hstop, hrest], by rw [skipTrivia_of_none hstop, hl], rfl⟩
  refine ⟨_, _, digits, back, hscan, hrest.trans hback.symm,
    Lexeme.unsigned_of_unsigned? hdigits, rfl, ?_⟩
  rw [skipTrivia_of_none hstop]
  exact covers_emit file hl

/-- A minus before a digit is the sign of a number, or an operator behind which a number stands. -/
theorem sign_of_scan (h : scanner.scan file = .token t next) {text : List Char}
    (htext : scanner.skipTrivia.rest = text ++ next.rest)
    (hminus : BeginsSigned scanner.skipTrivia.rest) (stops : List Token) :
    if scanner.skipTrivia.afterValue then
      IsMinus file scanner.skipTrivia.offset t text next.rest
        ((TokenStream.ofScanner file next).tokens ++ stops)
    else IsSigned t text := by
  obtain ⟨c, more, l, hrest, hl, hemit⟩ := scan_eq_token_iff.mp h
  obtain ⟨d, digits, hsource, hd⟩ := hminus
  obtain ⟨rfl, rfl⟩ := List.cons.inj (hrest.symm.trans hsource)
  obtain rfl : text = l.text := by
    obtain ⟨after, hafter⟩ := Lexeme.prefix_of_recognise hl
    cases hemit
    rw [hrest, ← hafter, List.drop_left] at htext
    exact (List.append_cancel_right htext).symm
  cases Lexeme.recognise_eq_ok_iff.mp hl with
  | name starts => cases starts
  | number starts => cases starts
  | symbol _ _ _ _ noNumber =>
    obtain ⟨number, hnumber⟩ := Lexeme.exists_unsigned? digits hd
    cases hnumber.symm.trans (noNumber rfl)
  | negative operand sign =>
    cases hemit
    rw [if_neg (by simp [sign])]
    exact ⟨rfl, _, Lexeme.unsigned_of_unsigned? operand, rfl⟩
  | minus operand operator =>
    rw [if_pos operator]
    have hnext : next.rest = d :: digits ∧ next.offset = scanner.skipTrivia.offset + 1 := by
      cases hemit
      exact ⟨by rw [hrest]; rfl, rfl⟩
    obtain ⟨number, after, own, back, hscan, hown, hunsigned, hkind, hcovers⟩ :=
      exists_scan_of_digit file hnext.1 hd
    rw [hnext.2] at hcovers
    refine ⟨by cases hemit; rfl, rfl, number, (TokenStream.ofScanner file after).tokens ++ stops,
      own, back, ?_, hown, hunsigned, hkind, hcovers⟩
    rw [TokenStream.ofScanner_of_token hscan, List.cons_append]

end Scanner

/-! ## The tokens of a source -/

/-- Tokens that stand one after another behind a given token, from an offset of a source to its end.
Between two of them stands a gap, and each is marked as its gap and the token before it tell. -/
inductive Marked (file : String) : Option Token → Nat → List Char → List Token → Prop
  | last {previous : Option Token} {offset : Nat} {gap : List Char} {stop : Token}
      (trivia : IsTrivia gap ∨ IsOpen gap) (kind : stop.kind = .eof)
      (span : stop.span = ⟨.ofOffset (offset + Utf8.size gap) file,
        .ofOffset (offset + Utf8.size gap) file⟩)
      (line : stop.newlineBefore = true ↔ '\n' ∈ gap) :
      Marked file previous offset gap [stop]
  | token {previous : Option Token} {offset : Nat} {gap text rest : List Char} {t : Token}
      {ts : List Token} (trivia : IsTrivia gap)
      (covers : t.Covers file (offset + Utf8.size gap) text)
      (line : t.newlineBefore = true ↔ '\n' ∈ gap)
      (sign : BeginsSigned (text ++ rest) → AllowsSign previous gap → IsSigned t text)
      (operator : BeginsSigned (text ++ rest) → ¬AllowsSign previous gap →
        IsMinus file (offset + Utf8.size gap) t text rest ts)
      (tail : Marked file (some t) (offset + Utf8.size gap + Utf8.size text) rest ts) :
      Marked file previous offset (gap ++ text ++ rest) (t :: ts)

/-- The tokens that a scanner finds are marked as the text behind it and the token before it tell.
The induction carries that the scanner remembers that token. -/
theorem TokenStream.marked_ofScanner {scanner : Scanner} {stop : Token}
    (hfollows : scanner.Follows previous) (h : (ofScanner file scanner).ending = .ok stop) :
    Marked file previous scanner.offset scanner.rest
      ((ofScanner file scanner).tokens ++ [stop]) := by
  fun_induction ofScanner file scanner generalizing previous with
  | case1 scanner t stay hscan =>
    cases h
    obtain ⟨hgap, htrivia, hkind, hspan, hline⟩ := Scanner.rest_of_ended hscan
    rw [hgap, List.nil_append]
    exact .last htrivia hkind hspan (hline ▸ hfollows.lineBreak_iff)
  | case2 => cases h
  | case3 scanner t next hscan stream =>
    rename_i ih
    obtain ⟨text, htext, hsource, htrivia, hcovers, hoffset, hline⟩ :=
      Scanner.exists_covers_of_scan hscan
    have hminus (hsigned : BeginsSigned (text ++ next.rest)) :=
      Scanner.sign_of_scan hscan htext (htext ▸ hsigned) [stop]
    have htail := ih (Scanner.Follows.of_scan hscan) h
    rw [hoffset] at htail
    rw [hsource]
    refine .token htrivia hcovers (hline ▸ hfollows.lineBreak_iff) (fun hsigned hallows => ?_)
      (fun hsigned hallows => ?_) htail
    · have hsign := hminus hsigned
      rwa [if_neg (by simp [hfollows.afterValue_iff.mpr hallows])] at hsign
    · have hoperator := hminus hsigned
      rw [← hfollows.afterValue_iff, Bool.not_eq_false] at hallows
      rwa [if_pos hallows, Scanner.offset_skipTrivia] at hoperator

/-- Each token of a source has a line break before it exactly if there is a line feed between its
beginning and the end of the previous token, or the beginning of the source. A token that begins
with a minus in front of a digit is a number with this sign if there is no previous token, if that
gap holds a line feed or if no value ends with the previous token. Otherwise it is the minus alone,
and the next token is the number without a sign right behind it. -/
theorem marked_of_tokenize {source file : String} {ts : List Token}
    (h : tokenize source file = .ok ts) : Marked file none 0 source.toList ts := by
  obtain ⟨us, stop, hstream, rfl⟩ := tokenize_eq_ok_iff.mp h
  have hending : (TokenStream.ofSource source file).ending = .ok stop := by rw [hstream]
  have hmarked := TokenStream.marked_ofScanner (Scanner.Follows.ofSource source) hending
  change Marked file none 0 source.toList ((TokenStream.ofSource source file).tokens ++ [stop])
    at hmarked
  rwa [hstream] at hmarked

/-- A minus between two numbers, and the sign of a number behind a comment of two lines. -/
theorem marked_of_tokenize_comment :
    let tokens : List Token :=
      [⟨.number, "-1", ⟨⟨0, "shell"⟩, ⟨2, "shell"⟩⟩, false⟩,
        ⟨.dash, "-", ⟨⟨2, "shell"⟩, ⟨3, "shell"⟩⟩, false⟩,
        ⟨.number, "2", ⟨⟨3, "shell"⟩, ⟨4, "shell"⟩⟩, false⟩,
        ⟨.number, "-3", ⟨⟨9, "shell"⟩, ⟨11, "shell"⟩⟩, true⟩,
        ⟨.eof, "EOF", ⟨⟨12, "shell"⟩, ⟨12, "shell"⟩⟩, true⟩]
    tokenize "-1-2/*\n*/-3\n" "shell" = .ok tokens ∧
      Marked "shell" none 0 "-1-2/*\n*/-3\n".toList tokens := by
  intro tokens
  have htokens : tokenize "-1-2/*\n*/-3\n" "shell" = .ok tokens := by decide +kernel
  exact ⟨htokens, marked_of_tokenize htokens⟩

end SurfaceGrammar

import SurfaceGrammar.Proofs.Token.Shape

/-!
# How far a scanner looks

A scan depends on the text up to the end of the token that it finds and on what stands right
after it. What follows the token can be cut off, and a text that begins with white space or with a
semicolon can be put behind it.

* `BeginsBlank`, `BeginsApart`: a text that begins with white space, or with a character with which
  no token goes on.
* `Lexeme.recognise_of_append`, `Lexeme.recognise_append`: a lexeme without a text behind it and
  with one.
* `Trivia.take?_of_append`, `Trivia.take?_append`: the same for white space and comments.
* `Scanner.Reads.of_before`, `Scanner.Reads.before`: the same for the tokens that a scanner reads.
-/

namespace SurfaceGrammar

/-- A text that begins with white space. -/
def BeginsBlank (text : List Char) : Prop :=
  ∃ c rest, text = c :: rest ∧ isWhitespace c = true

section Lists

variable {p : Char → Bool} {text more spelling : List Char}

theorem takeWhile_append_of_head (hmore : ∀ c ∈ more.head?, p c = false) :
    (text ++ more).takeWhile p = text.takeWhile p := by
  induction text with
  | nil =>
    cases more with
    | nil => rfl
    | cons c rest => simp [hmore c rfl]
  | cons c text ih =>
    cases hc : p c with
    | true => simp [hc, ih]
    | false => simp [hc]

theorem takeWhile_of_append (h : ((text ++ more).takeWhile p).length ≤ text.length) :
    (text ++ more).takeWhile p = text.takeWhile p := by
  induction text with
  | nil => exact List.length_eq_zero_iff.mp (Nat.le_zero.mp h)
  | cons c text ih =>
    cases hc : p c with
    | true =>
      simp only [List.cons_append, List.takeWhile_cons, hc, if_true, List.length_cons] at h ⊢
      rw [ih (by omega)]
    | false => simp [hc]

theorem prefix_of_append_of_head {c : Char} (h : spelling <+: c :: (text ++ more))
    (hmore : ∀ d ∈ more.head?, d ∉ spelling.tail) : spelling <+: c :: text := by
  rw [← List.cons_append] at h
  obtain ⟨rest, hrest⟩ := h
  obtain ⟨own, hown, -⟩ | ⟨excess, rfl, rfl⟩ := List.append_eq_append_iff.mp hrest
  · exact ⟨own, hown.symm⟩
  · cases excess with
    | nil => simp
    | cons d excess => exact absurd (by simp) (hmore d rfl)

theorem exists_cons_of_append_of_head {c : Char} {rest : List Char} (h : text ++ more = c :: rest)
    (hmore : ∀ d ∈ more.head?, d ≠ c) : ∃ own, text = c :: own := by
  cases text with
  | nil => exact absurd rfl (hmore c (by rw [← List.nil_append more, h]; rfl))
  | cons d text =>
    cases h
    exact ⟨text, rfl⟩

/-- What a longer text begins with, if it is no longer than the text without the end. -/
theorem exists_of_append_eq_append (first : List Char) {second text more : List Char}
    (h : text ++ more = first ++ second) (hlength : first.length ≤ text.length) :
    ∃ rest, text = first ++ rest ∧ second = rest ++ more := by
  obtain ⟨rest, rfl, rfl⟩ | hfirst := List.append_eq_append_iff.mp h
  · rw [List.length_append] at hlength
    have hnil : rest = [] := List.length_eq_zero_iff.mp (by omega)
    subst hnil
    exact ⟨[], by simp, rfl⟩
  · exact hfirst

end Lists

/-! ## White space and comments -/

namespace Trivia

variable {text more piece : List Char}

theorem throughCommentEnd?_append (h : throughCommentEnd? text = some piece) :
    throughCommentEnd? (text ++ more) = some piece := by
  fun_induction throughCommentEnd? text generalizing piece with
  | case1 => cases h
  | case2 text => exact h
  | case3 c text hno ih =>
    obtain ⟨body, hbody, rfl⟩ := Option.map_eq_some_iff.mp h
    rw [List.cons_append, throughCommentEnd?]
    · rw [ih hbody]
      rfl
    · rintro rest rfl hrest
      cases text with
      | nil => cases hbody
      | cons d text =>
        cases hrest
        exact hno text rfl rfl

theorem throughCommentEnd?_of_append (h : throughCommentEnd? (text ++ more) = some piece)
    (hlength : piece.length ≤ text.length) : throughCommentEnd? text = some piece := by
  fun_induction throughCommentEnd? text generalizing piece with
  | case1 =>
    have hpiece := List.length_eq_zero_iff.mp (Nat.le_zero.mp hlength)
    subst hpiece
    unfold throughCommentEnd? at h
    split at h
    · cases h
    · cases h
    · obtain ⟨body, -, hbody⟩ := Option.map_eq_some_iff.mp h
      cases hbody
  | case2 text => exact h
  | case3 c text hno ih =>
    rw [List.cons_append] at h
    unfold throughCommentEnd? at h
    split at h
    · next hcons => cases hcons
    · next rest hcons =>
      cases h
      injection hcons with hc htext
      cases text with
      | nil => simp at hlength
      | cons d text =>
        injection htext with hd
        exact absurd (congrArg (· :: text) hd) (hno text hc)
    · next hcons =>
      cases hcons
      obtain ⟨body, hbody, rfl⟩ := Option.map_eq_some_iff.mp h
      rw [ih hbody (by simpa using hlength)]
      rfl

/-- A text behind what is taken from a text that goes on. -/
theorem take?_append (h : take? text = some piece) (hlength : piece.length < text.length) :
    take? (text ++ more) = some piece := by
  rw [take?_eq_some_iff] at h ⊢
  obtain ⟨c, rest, rfl, hblank, rfl⟩ | ⟨rest, rfl, rfl⟩ | ⟨rest, body, rfl, hbody, rfl⟩ := h
  · exact .inl ⟨c, rest ++ more, rfl, hblank, rfl⟩
  · refine .inr (.inl ⟨rest ++ more, rfl, ?_⟩)
    simp only [List.length_cons] at hlength
    rw [List.takeWhile_append, if_neg (by omega)]
  · exact .inr (.inr ⟨rest ++ more, body, rfl, throughCommentEnd?_append hbody, rfl⟩)

/-- What is taken from a text is taken without what stands behind it. -/
theorem take?_of_append (h : take? (text ++ more) = some piece)
    (hlength : piece.length ≤ text.length) : take? text = some piece := by
  rw [take?_eq_some_iff] at h ⊢
  obtain ⟨c, rest, htext, hblank, rfl⟩ | ⟨rest, htext, rfl⟩ | ⟨rest, body, htext, hbody, rfl⟩ := h
  · obtain ⟨own, rfl, -⟩ := exists_of_append_eq_append [c] htext hlength
    exact .inl ⟨c, own, rfl, hblank, rfl⟩
  · simp only [List.length_cons] at hlength
    obtain ⟨own, rfl, rfl⟩ := exists_of_append_eq_append ['/', '/'] htext
      (by simp only [List.length_cons, List.length_nil]; omega)
    refine .inr (.inl ⟨own, rfl, ?_⟩)
    rw [takeWhile_of_append]
    simpa using hlength
  · simp only [List.length_cons] at hlength
    obtain ⟨own, rfl, rfl⟩ := exists_of_append_eq_append ['/', '*'] htext
      (by simp only [List.length_cons, List.length_nil]; omega)
    refine .inr (.inr ⟨own, body, rfl, throughCommentEnd?_of_append hbody ?_, rfl⟩)
    simpa using hlength

theorem take?_eq_none_of_append (h : take? (text ++ more) = none) : take? text = none := by
  rw [Option.eq_none_iff_forall_ne_some] at h ⊢
  intro piece hpiece
  obtain ⟨c, rest, rfl, hblank, rfl⟩ | ⟨rest, rfl, rfl⟩ | ⟨rest, body, rfl, hbody, rfl⟩ :=
    take?_eq_some_iff.mp hpiece
  · exact h _ (take?_eq_some_iff.mpr (.inl ⟨c, rest ++ more, rfl, hblank, rfl⟩))
  · exact h _ rfl
  · exact h _ (take?_eq_some_iff.mpr
      (.inr (.inr ⟨rest ++ more, body, rfl, throughCommentEnd?_append hbody, rfl⟩)))

end Trivia

/-! ## Lexemes -/

namespace Lexeme

variable {afterValue : Bool} {c quote : Char} {kind : TokenKind} {text more digits body : List Char}
  {l : Lexeme}

theorem isDigit_of_blank (h : isWhitespace c = true) : c.isDigit = false := by
  rw [Bool.eq_false_iff]
  intro hdigit
  obtain ⟨hlow, hhigh⟩ := range_of_isDigit hdigit
  rw [isWhitespace_eq_false (by omega) (by omega)] at h
  cases h

theorem continuesName_of_blank (h : isWhitespace c = true) : continuesName c = false := by
  rw [Bool.eq_false_iff]
  intro hname
  have hcases : (startsName c || c.isDigit) = true := by
    simp only [continuesName, startsName, Char.isAlphanum, Bool.or_eq_true] at hname ⊢
    obtain (hname | hname) | hname := hname
    · exact .inl (.inl hname)
    · exact .inr hname
    · exact .inl (.inr hname)
  obtain hstarts | hdigit := Bool.or_eq_true_iff.mp hcases
  · obtain ⟨hlow, hhigh⟩ := range_of_startsName hstarts
    rw [isWhitespace_eq_false (by omega) (by omega)] at h
    cases h
  · rw [isDigit_of_blank h] at hdigit
    cases hdigit

/-- Whether no name, number, operator or comment before it goes on with the character. -/
def partsTokens (c : Char) : Bool :=
  !continuesName c && !(['.', '/', '*'].contains c) &&
    symbols.all fun entry => !entry.1.tail.contains c

theorem partsTokens_iff : partsTokens c = true ↔ continuesName c = false ∧
    c ∉ ['.', '/', '*'] ∧ ∀ entry ∈ symbols, c ∉ entry.1.tail := by
  simp [partsTokens, and_assoc]

/-- A text that begins with a character with which no token before it goes on. -/
def BeginsApart (text : List Char) : Prop :=
  ∃ c rest, text = c :: rest ∧ partsTokens c = true

theorem BeginsApart.head (h : BeginsApart more) : ∀ d ∈ more.head?, continuesName d = false ∧
    d ∉ ['.', '/', '*'] ∧ ∀ entry ∈ symbols, d ∉ entry.1.tail := by
  obtain ⟨c, rest, rfl, hc⟩ := h
  rintro d ⟨⟩
  exact partsTokens_iff.mp hc

theorem BeginsApart.head_ne (h : BeginsApart more) (hc : c ∈ ['.', '/', '*']) :
    ∀ d ∈ more.head?, d ≠ c := by
  rintro d hd rfl
  exact (h.head d hd).2.1 hc

theorem BeginsApart.isDigit (h : BeginsApart more) : ∀ d ∈ more.head?, d.isDigit = false := by
  intro d hd
  rw [Bool.eq_false_iff]
  intro hdigit
  have hname := continuesName_of_isDigit hdigit
  rw [(h.head d hd).1] at hname
  cases hname

/-- No name and no number goes on with such a text. -/
theorem BeginsApart.endsWord (h : BeginsApart more) : endsWord more = true := by
  obtain ⟨c, rest, rfl, hc⟩ := h
  obtain ⟨hname, hmark, -⟩ := partsTokens_iff.mp hc
  have hpoint : c ≠ '.' := fun hpoint => hmark (by simp [hpoint])
  simp [Lexeme.endsWord, hpoint, hname]

theorem beginsApart_of_blank (h : BeginsBlank more) : BeginsApart more := by
  obtain ⟨c, rest, rfl, hc⟩ := h
  refine ⟨c, rest, rfl, partsTokens_iff.mpr ⟨continuesName_of_blank hc, ?_, ?_⟩⟩
  · intro hmem
    have hblank : (['.', '/', '*'].all (!isWhitespace ·)) = true := by decide
    have hnot := List.all_eq_true.mp hblank c hmem
    rw [hc] at hnot
    cases hnot
  · intro entry hentry hmem
    have hblank : ∀ entry ∈ symbols, entry.1.all (!isWhitespace ·) = true := by decide
    have hnot := List.all_eq_true.mp (hblank entry hentry) c (List.mem_of_mem_tail hmem)
    rw [hc] at hnot
    cases hnot

theorem body?_append (h : body? quote text = some body) :
    body? quote (text ++ more) = some body := by
  obtain ⟨hinside, rest, rfl⟩ := body?_eq_some_iff.mp h
  exact body?_eq_some_iff.mpr ⟨hinside, rest ++ more, by simp⟩

theorem body?_of_append (h : body? quote (text ++ more) = some body)
    (hlength : body.length < text.length) : body? quote text = some body := by
  obtain ⟨hinside, rest, htext⟩ := body?_eq_some_iff.mp h
  have htext' : text ++ more = (body ++ [quote]) ++ rest := by simpa using htext
  obtain ⟨own, rfl, -⟩ := exists_of_append_eq_append _ htext'
    (by rw [List.length_append]; exact hlength)
  exact body?_eq_some_iff.mpr ⟨hinside, own, by simp⟩

theorem quoted_append (h : quoted kind quote text = .ok l) :
    quoted kind quote (text ++ more) = .ok l := by
  obtain ⟨body, value, hbody, hrest⟩ := quoted_eq_ok_iff.mp h
  exact quoted_eq_ok_iff.mpr ⟨body, value, body?_append hbody, hrest⟩

theorem quoted_of_append (h : quoted kind quote (text ++ more) = .ok l)
    (hlength : l.text.length ≤ text.length + 1) : quoted kind quote text = .ok l := by
  obtain ⟨body, value, hbody, hvalue, hsingle, rfl⟩ := quoted_eq_ok_iff.mp h
  simp only [List.cons_append, List.length_cons, List.length_append, List.length_nil] at hlength
  exact quoted_eq_ok_iff.mpr
    ⟨body, value, body?_of_append hbody (by omega), hvalue, hsingle, rfl⟩

theorem EndsDigits.append {rest : List Char} (h : EndsDigits rest) (hmore : BeginsApart more) :
    EndsDigits (rest ++ more) := by
  cases rest with
  | nil => exact hmore.isDigit
  | cons d rest => exact h

theorem EndsDigits.of_append {rest : List Char} (h : EndsDigits (rest ++ more)) :
    EndsDigits rest := by
  cases rest with
  | nil => simp [EndsDigits]
  | cons d rest => exact h

theorem BeginsFraction.append {rest : List Char} (h : BeginsFraction rest) :
    BeginsFraction (rest ++ more) := by
  obtain ⟨c, tail, rfl, hc⟩ := h
  exact ⟨c, tail ++ more, rfl, hc⟩

theorem BeginsFraction.of_append {rest : List Char} (h : BeginsFraction (rest ++ more))
    (hmore : BeginsApart more) : BeginsFraction rest := by
  obtain ⟨c, tail, htext, hc⟩ := h
  match rest with
  | [] =>
    rw [List.nil_append] at htext
    exact absurd rfl (hmore.head_ne (c := '.') (by decide) '.' (by rw [htext]; rfl))
  | [d] =>
    obtain ⟨rfl, htail⟩ := List.cons.inj htext
    have hhead : c ∈ more.head? := congrArg List.head? htail
    rw [hmore.isDigit c hhead] at hc
    cases hc
  | d :: e :: rest =>
    cases htext
    exact ⟨c, rest, rfl, hc⟩

theorem unsigned?_append_apart (h : unsigned? text = some digits) (hmore : BeginsApart more) :
    unsigned? (text ++ more) = some digits := by
  obtain ⟨whole, rest, hne, hwhole, rfl, hrest, hkind⟩ := unsigned?_eq_some_iff.mp h
  refine unsigned?_eq_some_iff.mpr ⟨whole, rest ++ more, hne, hwhole, by simp, hrest.append hmore,
    hkind.imp_left ?_⟩
  exact fun ⟨hdigits, hfraction⟩ => ⟨hdigits, fun hbegins => hfraction (hbegins.of_append hmore)⟩

theorem unsigned?_of_append (h : unsigned? (text ++ more) = some digits)
    (hlength : digits.length ≤ text.length) : unsigned? text = some digits := by
  obtain ⟨whole, rest, hne, hwhole, htext, hrest, hkind⟩ := unsigned?_eq_some_iff.mp h
  obtain ⟨own, rfl, rfl⟩ := exists_of_append_eq_append _ htext hlength
  refine unsigned?_eq_some_iff.mpr ⟨whole, own, hne, hwhole, rfl, hrest.of_append,
    hkind.imp_left ?_⟩
  exact fun ⟨hdigits, hfraction⟩ => ⟨hdigits, fun hbegins => hfraction hbegins.append⟩

theorem symbol_append (h : symbol c text = .ok l) (hmore : BeginsApart more) :
    symbol c (text ++ more) = .ok l := by
  obtain ⟨spelling, kind, before, after, hstarts, hsymbols, hbefore, rfl⟩ := symbol_eq_ok_iff.mp h
  refine symbol_eq_ok_iff.mpr ⟨spelling, kind, before, after,
    hstarts.trans (List.prefix_append (c :: text) more), hsymbols, fun entry hentry hmem => ?_, rfl⟩
  refine hbefore entry hentry (prefix_of_append_of_head hmem fun d hd => ?_)
  refine (hmore.head d hd).2.2 entry ?_
  rw [hsymbols]
  exact List.mem_append_left _ hentry

theorem symbol_of_append (h : symbol c (text ++ more) = .ok l)
    (hlength : l.text.length ≤ text.length + 1) : symbol c text = .ok l := by
  obtain ⟨spelling, kind, before, after, hstarts, hsymbols, hbefore, rfl⟩ := symbol_eq_ok_iff.mp h
  have hown : c :: text <+: c :: (text ++ more) := List.prefix_append (c :: text) more
  exact symbol_eq_ok_iff.mpr ⟨spelling, kind, before, after,
    List.prefix_of_prefix_length_le hstarts hown hlength, hsymbols,
    fun entry hentry hmem => hbefore entry hentry (hmem.trans hown), rfl⟩

/-- A lexeme with a text behind it with which it does not go on. -/
theorem recognise_append (h : recognise afterValue c text = .ok l) (hmore : BeginsApart more) :
    recognise afterValue c (text ++ more) = .ok l := by
  rw [recognise_eq_ok_iff] at h ⊢
  cases h with
  | name starts =>
    rw [← takeWhile_append_of_head fun d hd => (hmore.head d hd).1]
    exact .name starts
  | string literal => exact .string (quoted_append literal)
  | char literal => exact .char (quoted_append literal)
  | minus operand operator => exact .minus (unsigned?_append_apart operand hmore) operator
  | negative operand sign => exact .negative (unsigned?_append_apart operand hmore) sign
  | number starts digits => exact .number starts (unsigned?_append_apart digits hmore)
  | symbol noName noDigit noQuote noComment noNumber mark =>
    refine .symbol noName noDigit noQuote ?_ (fun hminus => ?_) (symbol_append mark hmore)
    · rintro ⟨hslash, hstar⟩
      obtain ⟨rest, htext⟩ := List.head?_eq_some_iff.mp hstar
      obtain ⟨own, rfl⟩ := exists_cons_of_append_of_head htext (hmore.head_ne (by decide))
      exact noComment ⟨hslash, rfl⟩
    · rw [unsigned?_eq_none_iff, takeWhile_append_of_head hmore.isDigit, ← unsigned?_eq_none_iff]
      exact noNumber hminus

/-- A lexeme without what stands behind it. -/
theorem recognise_of_append (h : recognise afterValue c (text ++ more) = .ok l)
    (hlength : l.text.length ≤ text.length + 1) : recognise afterValue c text = .ok l := by
  rw [recognise_eq_ok_iff] at h ⊢
  cases h with
  | name starts =>
    rw [takeWhile_of_append (by simpa using hlength)]
    exact .name starts
  | string literal => exact .string (quoted_of_append literal hlength)
  | char literal => exact .char (quoted_of_append literal hlength)
  | minus operand operator =>
    cases htext : unsigned? text with
    | some digits => exact .minus htext operator
    | none =>
      cases text with
      | nil => exact .symbol rfl rfl (by decide) (by decide) (fun _ => rfl) rfl
      | cons d text =>
        rw [List.cons_append] at operand
        rw [unsigned?_eq_none_iff,
          List.takeWhile_cons_of_pos (isDigit_of_unsigned? operand)] at htext
        cases htext
  | negative operand sign =>
    exact .negative (unsigned?_of_append operand (by simpa using hlength)) sign
  | number starts digits =>
    rw [← List.cons_append] at digits
    exact .number starts (unsigned?_of_append digits hlength)
  | symbol noName noDigit noQuote noComment noNumber mark =>
    refine .symbol noName noDigit noQuote ?_ (fun hminus => ?_) (symbol_of_append mark hlength)
    · rintro ⟨hslash, hstar⟩
      exact noComment ⟨hslash, by rw [List.head?_append, hstar]; rfl⟩
    · have hnone := unsigned?_eq_none_iff.mp (noNumber hminus)
      have hown : ((text ++ more).takeWhile Char.isDigit).length ≤ text.length := by
        rw [hnone]
        exact Nat.zero_le _
      rw [unsigned?_eq_none_iff, ← takeWhile_of_append hown, hnone]

/-- No comment begins where a lexeme begins. -/
theorem take?_append_of_recognise (h : recognise afterValue c text = .ok l)
    (hstop : Trivia.take? (c :: text) = none) (hmore : BeginsApart more) :
    Trivia.take? (c :: text ++ more) = none := by
  rw [Option.eq_none_iff_forall_ne_some] at hstop ⊢
  intro piece hpiece
  obtain ⟨d, rest, hcons, hblank, -⟩ | ⟨rest, hcons, -⟩ | ⟨rest, body, hcons, -, -⟩ :=
    Trivia.take?_eq_some_iff.mp hpiece
  · cases hcons
    exact hstop _ (Trivia.take?_eq_some_iff.mpr (.inl ⟨c, text, rfl, hblank, rfl⟩))
  · obtain ⟨rfl, htext⟩ := List.cons.inj hcons
    obtain ⟨own, rfl⟩ := exists_cons_of_append_of_head htext (hmore.head_ne (by decide))
    exact hstop _ rfl
  · obtain ⟨rfl, htext⟩ := List.cons.inj hcons
    obtain ⟨own, rfl⟩ := exists_cons_of_append_of_head htext (hmore.head_ne (by decide))
    cases recognise_eq_ok_iff.mp h with
    | name starts => exact absurd starts (by decide)
    | number starts _ => exact absurd starts (by decide)
    | symbol _ _ _ noComment _ _ => exact noComment ⟨rfl, rfl⟩

end Lexeme

/-! ## Scanners -/

namespace Scanner

variable {file : String} {scanner next last : Scanner} {t : Token} {ts : List Token}
  {more : List Char}

/-- The scanner with a text behind what follows it. -/
def before (scanner : Scanner) (more : List Char) : Scanner :=
  { scanner with rest := scanner.rest ++ more }

@[simp] theorem rest_before (scanner : Scanner) (more : List Char) :
    (scanner.before more).rest = scanner.rest ++ more := rfl

theorem length_rest_skip (scanner : Scanner) (piece : List Char) :
    (scanner.skip piece).rest.length = scanner.rest.length - piece.length :=
  List.length_drop

theorem skip_before {piece : List Char} (hlength : piece.length ≤ scanner.rest.length) :
    (scanner.before more).skip piece = (scanner.skip piece).before more := by
  simp [before, skip, List.drop_append_of_le_length hlength]

theorem emit_before {l : Lexeme} (hlength : l.text.length ≤ scanner.rest.length) :
    (scanner.before more).emit file l =
      ((scanner.emit file l).1, (scanner.emit file l).2.before more) := by
  simp [before, emit, List.drop_append_of_le_length hlength]

/-- Neither white space nor a comment follows where the scanner has skipped both. -/
theorem take?_rest_skipTrivia (scanner : Scanner) :
    Trivia.take? scanner.skipTrivia.rest = none := by
  fun_induction skipTrivia scanner with
  | case1 scanner htake => exact htake
  | case2 scanner piece _ ih => exact ih

theorem skipTrivia_before (hnext : scanner.skipTrivia.rest ≠ [])
    (hstop : Trivia.take? (scanner.skipTrivia.rest ++ more) = none) :
    (scanner.before more).skipTrivia = scanner.skipTrivia.before more := by
  fun_induction skipTrivia scanner with
  | case1 => exact skipTrivia_of_none hstop
  | case2 scanner piece htake ih =>
    have hle := length_skipTrivia_le (scanner.skip piece)
    have hpos := List.length_pos_iff.mpr hnext
    rw [length_rest_skip] at hle
    rw [skipTrivia_of_some (Trivia.take?_append htake (by omega)), skip_before (by omega)]
    exact ih hnext hstop

/-- A text behind the next token. -/
theorem scan_before (h : scanner.scan file = .token t next) (hmore : Lexeme.BeginsApart more) :
    (scanner.before more).scan file = .token t (next.before more) := by
  obtain ⟨c, text, l, hrest, hl, hemit⟩ := scan_eq_token_iff.mp h
  have hstop : Trivia.take? (scanner.skipTrivia.rest ++ more) = none := by
    rw [hrest]
    exact Lexeme.take?_append_of_recognise hl (hrest ▸ take?_rest_skipTrivia scanner) hmore
  have hskip := skipTrivia_before (by rw [hrest]; exact List.cons_ne_nil c text) hstop
  have hlength := (Lexeme.prefix_of_recognise hl).length_le
  rw [← hrest] at hlength
  refine scan_eq_token_iff.mpr ⟨c, text ++ more, l, ?_, ?_, ?_⟩
  · rw [hskip, rest_before, hrest, List.cons_append]
  · rw [hskip]
    exact Lexeme.recognise_append hl hmore
  · rw [hskip, emit_before hlength, hemit]

theorem skipTrivia_of_before (scanner : Scanner)
    (hlength : more.length ≤ (scanner.before more).skipTrivia.rest.length) :
    (scanner.before more).skipTrivia = scanner.skipTrivia.before more := by
  have hown : ∀ piece, Trivia.take? (scanner.before more).rest = some piece →
      piece.length ≤ scanner.rest.length ∧ Trivia.take? scanner.rest = some piece := by
    intro piece htake
    have hle := length_skipTrivia_le ((scanner.before more).skip piece)
    have hstarts := (Trivia.prefix_of_take? htake).length_le
    rw [skipTrivia_of_some htake] at hlength
    simp only [length_rest_skip, rest_before, List.length_append] at hle hstarts
    exact ⟨by omega, Trivia.take?_of_append htake (by omega)⟩
  cases hwhole : Trivia.take? (scanner.before more).rest with
  | none =>
    rw [skipTrivia_of_none hwhole, skipTrivia_of_none (Trivia.take?_eq_none_of_append hwhole)]
  | some piece =>
    obtain ⟨hpiece, htake⟩ := hown piece hwhole
    rw [skipTrivia_of_some hwhole, skip_before hpiece] at hlength ⊢
    rw [skipTrivia_of_some htake]
    exact skipTrivia_of_before _ hlength
termination_by scanner.rest.length
decreasing_by
  have := length_pos_of_take? htake
  rw [length_rest_skip]
  omega

/-- The next token without what stands behind it. -/
theorem scan_of_before (h : (scanner.before more).scan file = .token t next)
    (hlength : more.length ≤ next.rest.length) :
    ∃ own, next = own.before more ∧ scanner.scan file = .token t own := by
  obtain ⟨c, text, l, hrest, hl, hemit⟩ := scan_eq_token_iff.mp h
  have hnext : next.rest.length = (c :: text).length - l.text.length := by
    cases hemit
    rw [← hrest]
    exact List.length_drop
  have hpos := Lexeme.length_pos_of_recognise hl
  have hle := (Lexeme.prefix_of_recognise hl).length_le
  have hbehind : more.length ≤ (scanner.before more).skipTrivia.rest.length := by
    rw [hrest]
    omega
  have hskip := skipTrivia_of_before scanner hbehind
  rw [hskip, rest_before] at hrest
  have hlengths := congrArg List.length hrest
  rw [List.length_append] at hlengths
  obtain ⟨own, hown, rfl⟩ := exists_of_append_eq_append [c] hrest (by
    simp only [List.length_cons, List.length_nil]
    omega)
  rw [hskip] at hl hemit
  rw [emit_before (by omega)] at hemit
  cases hemit
  refine ⟨_, rfl, scan_eq_token_iff.mpr ⟨c, own, l, hown, ?_, rfl⟩⟩
  refine Lexeme.recognise_of_append hl ?_
  simp only [List.length_cons, List.length_append] at hnext hle
  omega

namespace Reads

/-- A text behind the tokens that a scanner reads. -/
theorem before (h : scanner.Reads file ts last) (hmore : Lexeme.BeginsApart more) :
    (scanner.before more).Reads file ts (last.before more) := by
  induction h with
  | refl => exact .refl _
  | step head _ ih => exact .step (scan_before head hmore) ih

theorem length_le (h : scanner.Reads file ts last) : last.rest.length ≤ scanner.rest.length := by
  induction h with
  | refl => exact Nat.le_refl _
  | step head _ ih => exact Nat.le_trans ih (Nat.le_of_lt (length_lt_of_scan head))

/-- The tokens that a scanner reads, without what stands behind them. -/
theorem of_before (h : (scanner.before more).Reads file ts last)
    (hlength : more.length ≤ last.rest.length) :
    ∃ own, last = own.before more ∧ scanner.Reads file ts own := by
  generalize hwhole : scanner.before more = whole at h
  induction h generalizing scanner with
  | refl =>
    subst hwhole
    exact ⟨scanner, rfl, .refl scanner⟩
  | step head tail ih =>
    subst hwhole
    obtain ⟨own, rfl, hown⟩ := scan_of_before head (Nat.le_trans hlength tail.length_le)
    obtain ⟨stop, rfl, hstop⟩ := ih hlength rfl
    exact ⟨stop, rfl, .step hown hstop⟩

end Reads

end Scanner

end SurfaceGrammar

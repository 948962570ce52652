import SurfaceGrammar.Proofs.Token.Trivia

/-!
# Gaps between tokens

Between two tokens of a source stands a gap of white space. The tokens before it do not depend on
it, and the tokens after it depend on nothing but whether there is a line break in it.

* `Gap`: a gap of white space between two tokens of a source.
* `Gap.BeginsSigned`: a minus and a digit stand behind a gap.
* `Gap.exists_ofSource`: the tokens of a source with another gap.
* `TokenStream.exists_of_alike`: the tokens that a scanner finds do not depend on its offset.
* `TokenStream.exists_after_break`: a line break in a gap shows in the next token only.
-/

namespace SurfaceGrammar

/-- A run of white space that is not empty. -/
def IsBlank (gap : List Char) : Prop :=
  gap ≠ [] ∧ ∀ c ∈ gap, isWhitespace c = true

theorem IsBlank.begins {gap : List Char} (h : IsBlank gap) (back : List Char) :
    BeginsBlank (gap ++ back) := by
  obtain ⟨hne, hall⟩ := h
  obtain ⟨c, rest, rfl⟩ := List.exists_cons_of_ne_nil hne
  exact ⟨c, rest ++ back, rfl, hall c List.mem_cons_self⟩

/-- The text begins with a minus and a digit. -/
def BeginsSigned (text : List Char) : Prop :=
  ∃ d rest, text = '-' :: d :: rest ∧ d.isDigit = true

/-- Whether a value was passed matters only in front of a minus and a digit. -/
theorem Lexeme.recognise_eq {c : Char} {text : List Char} (value value' : Bool)
    (h : ¬BeginsSigned (c :: text)) : recognise value' c text = recognise value c text := by
  by_cases hc : c = '-'
  · subst hc
    have hnone : unsigned? text = none := by
      cases text with
      | nil => rfl
      | cons d text =>
        refine unsigned?_eq_none ?_
        rw [Bool.eq_false_iff]
        exact fun hd => h ⟨d, text, rfl, hd⟩
    simp only [recognise, hnone]
  · simp only [recognise, if_neg hc]

/-! ## Scanners at different offsets -/

namespace Scanner

variable {file : String} {scanner other next last : Scanner} {t : Token} {ts : List Token}

/-- Two scanners that differ only in how many bytes stand before them. -/
structure Alike (scanner other : Scanner) : Prop where
  rest : other.rest = scanner.rest
  lineBreak : other.lineBreak = scanner.lineBreak
  afterValue : other.afterValue = scanner.afterValue

namespace Alike

theorem skip (h : Alike scanner other) (piece : List Char) :
    Alike (scanner.skip piece) (other.skip piece) :=
  ⟨by simp [Scanner.skip, h.rest], by simp [Scanner.skip, h.lineBreak],
    by simp [Scanner.skip, h.afterValue]⟩

theorem skipTrivia (h : Alike scanner other) : Alike scanner.skipTrivia other.skipTrivia := by
  fun_induction Scanner.skipTrivia scanner generalizing other with
  | case1 scanner htake => rwa [skipTrivia_of_none (by rw [h.rest, htake])]
  | case2 scanner piece htake ih =>
    have hother : Trivia.take? other.rest = some piece := by rw [h.rest, htake]
    rw [skipTrivia_of_some hother]
    exact ih (h.skip piece)

theorem exists_scan (h : Alike scanner other) (hscan : scanner.scan file = .token t next) :
    ∃ u after, other.scan file = .token u after ∧ u.unplaced = t.unplaced ∧ Alike next after := by
  obtain ⟨c, text, l, hrest, hl, hemit⟩ := scan_eq_token_iff.mp hscan
  have hskip := h.skipTrivia
  refine ⟨_, _, scan_eq_token_iff.mpr ⟨c, text, l, by rw [hskip.rest, hrest],
    by rw [hskip.afterValue, hl], rfl⟩, ?_, ?_⟩
  · cases hemit
    simp [Token.unplaced, hskip.lineBreak]
  · cases hemit
    exact ⟨by simp [hskip.rest], rfl, rfl⟩

theorem exists_ended (h : Alike scanner other) (hscan : scanner.scan file = .ended t next) :
    ∃ u stay, other.scan file = .ended u stay := by
  obtain ⟨hrest, -, -⟩ := scan_eq_ended_iff.mp hscan
  exact ⟨_, _, scan_eq_ended_iff.mpr ⟨by rw [h.skipTrivia.rest, hrest], rfl, rfl⟩⟩

end Alike

/-- A scanner that has just read a token. -/
theorem Reads.last_eq {before : List Token} (h : scanner.Reads file (before ++ [t]) last) :
    last.lineBreak = false ∧ last.afterValue = t.endsValue := by
  induction before generalizing scanner with
  | nil =>
    cases h with
    | step head tail =>
      cases tail
      obtain ⟨c, text, l, -, -, hemit⟩ := scan_eq_token_iff.mp head
      cases hemit
      exact ⟨rfl, rfl⟩
  | cons u before ih =>
    cases h with
    | step head tail => exact ih tail

end Scanner

/-! ## Streams -/

theorem Token.endsValue_congr {t u : Token} (hkind : u.kind = t.kind)
    (hvalue : u.value = t.value) : u.endsValue = t.endsValue := by
  obtain ⟨kind, value, span, line⟩ := t
  obtain ⟨kind', value', span', line'⟩ := u
  cases hkind
  cases hvalue
  rfl

namespace TokenStream

variable {file : String} {scanner other : Scanner} {t stop : Token} {ts : List Token}
  {back : List Char}

/-- The tokens that a scanner finds do not depend on its offset. -/
theorem exists_of_alike (h : scanner.Alike other)
    (hstream : ofScanner file scanner = ⟨ts, .ok stop⟩) :
    ∃ us stop', ofScanner file other = ⟨us, .ok stop'⟩ ∧
      us.map Token.unplaced = ts.map Token.unplaced := by
  fun_induction ofScanner file scanner generalizing other ts with
  | case1 scanner t stay hscan =>
    cases hstream
    obtain ⟨u, stay', hother⟩ := h.exists_ended hscan
    exact ⟨[], u, ofScanner_of_ended hother, rfl⟩
  | case2 => cases hstream
  | case3 scanner t next hscan stream =>
    rename_i ih
    obtain ⟨u, after, hother, hu, halike⟩ := h.exists_scan hscan
    obtain ⟨rfl, hending⟩ := TokenStream.mk.inj hstream
    have hnext : ofScanner file next = ⟨(ofScanner file next).tokens, .ok stop⟩ := by
      rw [← hending]
    obtain ⟨us, stop', htail, hus⟩ := ih halike hnext
    refine ⟨u :: us, stop', by rw [ofScanner_of_token hother, htail], ?_⟩
    rw [List.map_cons, List.map_cons, hu, hus]

/-- What a scanner finds in front of a lexeme. -/
theorem ofScanner_of_recognise (file : String) (offset : Nat) (line : Bool) {value : Bool}
    {c : Char} {text : List Char} {l : Lexeme} (hstop : Trivia.take? (c :: text) = none)
    (hl : Lexeme.recognise value c text = .ok l) :
    ∃ t next, ofScanner file ⟨c :: text, offset, line, value⟩ =
        ⟨t :: (ofScanner file next).tokens, (ofScanner file next).ending⟩ ∧
      t.kind = l.kind ∧ t.value = l.value ∧ t.newlineBefore = line ∧
      next.rest = (c :: text).drop l.text.length ∧ next.lineBreak = false ∧
      next.afterValue = t.endsValue := by
  have hskip : (⟨c :: text, offset, line, value⟩ : Scanner).skipTrivia = _ :=
    Scanner.skipTrivia_of_none hstop
  obtain ⟨t, next, hemit⟩ :
      ∃ t next, Scanner.emit ⟨c :: text, offset, line, value⟩ file l = (t, next) := ⟨_, _, rfl⟩
  refine ⟨t, next, ofScanner_of_token (Scanner.scan_eq_token_iff.mpr
    ⟨c, text, l, by rw [hskip], by rw [hskip, hl], by rw [hskip, hemit]⟩), ?_⟩
  cases hemit
  exact ⟨rfl, rfl, rfl, rfl, rfl, rfl⟩

/-- A line break before the next token shows in this token only, if the token is the same. -/
theorem exists_after_break {offset offset' : Nat} {line line' value value' : Bool} {c : Char}
    {text : List Char} (hstop : Trivia.take? (c :: text) = none)
    (hsame : Lexeme.recognise value' c text = Lexeme.recognise value c text)
    (hstream : ofScanner file ⟨c :: text, offset, line, value⟩ = ⟨t :: ts, .ok stop⟩) :
    ∃ t' ts' stop', ofScanner file ⟨c :: text, offset', line', value'⟩ = ⟨t' :: ts', .ok stop'⟩ ∧
      t'.kind = t.kind ∧ t'.value = t.value ∧ t.newlineBefore = line ∧ t'.newlineBefore = line' ∧
      ts'.map Token.unplaced = ts.map Token.unplaced := by
  cases hl : Lexeme.recognise value c text with
  | error fault =>
    have hskip : (⟨c :: text, offset, line, value⟩ : Scanner).skipTrivia = _ :=
      Scanner.skipTrivia_of_none hstop
    have hscan : Scanner.scan file ⟨c :: text, offset, line, value⟩ = .failed _ _ :=
      Scanner.scan_eq_failed_iff.mpr
        ⟨c, text, fault, by rw [hskip], by rw [hskip]; exact hl, rfl, rfl⟩
    rw [ofScanner_of_failed hscan] at hstream
    cases hstream
  | ok l =>
    obtain ⟨u, next, hown, hkind, hvalue, hline, hrest, hbreak, hends⟩ :=
      ofScanner_of_recognise file offset line hstop hl
    obtain ⟨u', next', hother, hkind', hvalue', hline', hrest', hbreak', hends'⟩ :=
      ofScanner_of_recognise file offset' line' hstop
        (hsame.trans hl)
    obtain ⟨htokens, hending⟩ := TokenStream.mk.inj (hown.symm.trans hstream)
    obtain ⟨rfl, rfl⟩ := List.cons.inj htokens
    have hkinds : u'.kind = u.kind := hkind'.trans hkind.symm
    have hvalues : u'.value = u.value := hvalue'.trans hvalue.symm
    have halike : next.Alike next' :=
      ⟨hrest'.trans hrest.symm, hbreak'.trans hbreak.symm, by
        rw [hends', hends, Token.endsValue_congr hkinds hvalues]⟩
    have hnext : ofScanner file next = ⟨(ofScanner file next).tokens, .ok stop⟩ := by
      rw [← hending]
    obtain ⟨us, stop', htail, hus⟩ := exists_of_alike halike hnext
    exact ⟨u', us, stop', by rw [hother, htail], hkinds, hvalues, hline, hline', hus⟩

end TokenStream

/-! ## Gaps -/

/-- A gap of white space between two tokens of a source: the scanner reads the tokens `before` and
`last` and stands in front of the gap, and neither more white space nor a comment stands behind
the gap. -/
structure Gap (file : String) (front gap back : List Char) (before : List Token) (last : Token) :
    Prop where
  blank : IsBlank gap
  reads : ∃ scanner, (Scanner.ofSource (String.ofList (front ++ (gap ++ back)))).Reads file
    (before ++ [last]) scanner ∧ scanner.rest = gap ++ back
  stop : Trivia.take? back = none

namespace Gap

variable {file : String} {front gap gap' back : List Char} {before : List Token} {last : Token}

theorem ofSource_append (front more : List Char) :
    Scanner.ofSource (String.ofList (front ++ more)) =
      (Scanner.ofSource (String.ofList front)).before more := by
  simp [Scanner.ofSource, Scanner.before]

/-- The tokens before a gap do not depend on the gap, and neither does the place where they end. -/
theorem exists_reads (h : Gap file front gap back before last) :
    ∃ offset, ∀ gap', IsBlank gap' →
      (Scanner.ofSource (String.ofList (front ++ (gap' ++ back)))).Reads file (before ++ [last])
        ⟨gap' ++ back, offset, false, last.endsValue⟩ := by
  obtain ⟨scanner, hreads, hrest⟩ := h.reads
  rw [ofSource_append] at hreads
  obtain ⟨own, rfl, hown⟩ := hreads.of_before (Nat.le_of_eq (by rw [hrest]))
  have hnil : own.rest = [] := List.append_left_eq_self.mp hrest
  obtain ⟨hline, hvalue⟩ := hown.last_eq
  refine ⟨own.offset, fun gap' hgap' => ?_⟩
  have hbefore := hown.before (Lexeme.beginsApart_of_blank (hgap'.begins back))
  rw [ofSource_append]
  simpa only [Scanner.before, hnil, hline, hvalue, List.nil_append] using hbefore

/-- The tokens of the source are those before the gap and those after it, whatever the gap is. -/
theorem exists_ofSource_eq (h : Gap file front gap back before last) :
    ∃ offset : List Char → Nat, ∀ gap', IsBlank gap' →
      ∃ stream, stream = TokenStream.ofScanner file ⟨back, offset gap', gap'.contains '\n',
          last.endsValue && !gap'.contains '\n'⟩ ∧
        TokenStream.ofSource (String.ofList (front ++ (gap' ++ back))) file =
          ⟨before ++ last :: stream.tokens, stream.ending⟩ := by
  obtain ⟨offset, hreads⟩ := h.exists_reads
  refine ⟨fun gap' => offset + Utf8.size gap', fun gap' hgap' => ⟨_, rfl, ?_⟩⟩
  have hskip := Scanner.skipTrivia_of_isTrivia (.of_blank hgap'.2) h.stop offset false
    last.endsValue
  have hstop : Scanner.skipTrivia ⟨back, offset + Utf8.size gap', gap'.contains '\n',
      last.endsValue && !gap'.contains '\n'⟩ = _ := Scanner.skipTrivia_of_none h.stop
  rw [Bool.false_or] at hskip
  rw [TokenStream.ofSource, TokenStream.ofScanner_of_reads (hreads gap' hgap'),
    TokenStream.ofScanner_congr (Scanner.scan_of_skipTrivia (hskip.trans hstop.symm))]
  simp

/-- The tokens of the source with another gap: only whether a line break stands before the token
behind the gap may change, unless a line break turns a minus behind a value into a sign. -/
theorem exists_ofSource (h : Gap file front gap back before last) (hgap' : IsBlank gap')
    (hsign : gap'.contains '\n' = gap.contains '\n' ∨
      ¬(last.endsValue = true ∧ BeginsSigned back)) {next stop : Token} {after : List Token}
    (hsource : TokenStream.ofSource (String.ofList (front ++ (gap ++ back))) file =
      ⟨before ++ last :: next :: after, .ok stop⟩) :
    ∃ next' after' stop', TokenStream.ofSource (String.ofList (front ++ (gap' ++ back))) file =
        ⟨before ++ last :: next' :: after', .ok stop'⟩ ∧
      next'.kind = next.kind ∧ next'.value = next.value ∧
      next.newlineBefore = gap.contains '\n' ∧ next'.newlineBefore = gap'.contains '\n' ∧
      after'.map Token.unplaced = after.map Token.unplaced := by
  obtain ⟨offset, htokens⟩ := h.exists_ofSource_eq
  obtain ⟨stream, hstream, hown⟩ := htokens gap h.blank
  obtain ⟨stream', hstream', hother⟩ := htokens gap' hgap'
  obtain ⟨hbehind, hending⟩ := TokenStream.mk.inj (hown.symm.trans hsource)
  have hbehind' : stream.tokens = next :: after := by simpa using hbehind
  have hnext : stream = ⟨next :: after, .ok stop⟩ := by rw [← hbehind', ← hending]
  rw [hstream] at hnext
  cases hback : back with
  | nil =>
    rw [hback] at hnext
    have hscan : Scanner.scan file ⟨[], offset gap, gap.contains '\n',
        last.endsValue && !gap.contains '\n'⟩ = .ended _ _ :=
      Scanner.scan_eq_ended_iff.mpr ⟨by rw [Scanner.skipTrivia_of_none rfl], rfl, rfl⟩
    rw [TokenStream.ofScanner_of_ended hscan] at hnext
    cases hnext
  | cons c text =>
    rw [hback] at hnext hstream'
    have hstop := h.stop
    rw [hback] at hstop
    have hsame : Lexeme.recognise (last.endsValue && !gap'.contains '\n') c text =
        Lexeme.recognise (last.endsValue && !gap.contains '\n') c text := by
      obtain hline | hsign := hsign
      · rw [hline]
      · by_cases hvalue : last.endsValue = true
        · exact Lexeme.recognise_eq _ _ fun hback' => hsign ⟨hvalue, by rw [hback]; exact hback'⟩
        · simp [hvalue]
    obtain ⟨next', after', stop', htail, hkind, hvalue, hline, hline', hafter⟩ :=
      TokenStream.exists_after_break hstop hsame hnext
    refine ⟨next', after', stop', ?_, hkind, hvalue, hline, hline', hafter⟩
    rw [hback] at hother
    rw [hother, hstream', htail]

end Gap

end SurfaceGrammar

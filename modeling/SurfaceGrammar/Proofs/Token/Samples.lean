import SurfaceGrammar.Proofs.Token.Gaps
import SurfaceGrammar.Proofs.Token.Places

/-!
# A source cut before a token

A source is cut where one of its tokens begins, or where nothing follows. What is left in front of
the cut has the tokens before it. A space and the text of a token may be put there: they add this
token, unless a line comment without an end stands in front of the cut.

* `TokenKind.IsText`: the text of a token of a kind.
* `Lexeme.sample`, `Lexeme.isText_sample`: every kind but the one for the end has a text.
* `IsTrivia.append`, `Scanner.gap_cases`: what a scanner skips.
* `Cut`: the part of a source in front of a token.
* `Cut.ofSource_front`, `Cut.ofSource_sample`, `Cut.ofSource_comment`: its tokens, with a text
  behind it and without.
-/

namespace SurfaceGrammar

/-! ## A text for each kind -/

/-- The text is that of one token of the kind. -/
def TokenKind.IsText (kind : TokenKind) (text : String) : Prop :=
  ∃ l : Lexeme, l.kind = kind ∧ l.text = text.toList ∧ l.Stands false []

namespace Lexeme

/-- A token of each kind. -/
def sample : TokenKind → Lexeme
  | .number => ⟨.number, "1", ['1']⟩
  | .string => ⟨.string, "", ['"', '"']⟩
  | .char => ⟨.char, "c", ['\'', 'c', '\'']⟩
  | .identifier => name "x"
  | kind => mark kind

variable {kind : TokenKind}

theorem kind_sample (kind : TokenKind) : (sample kind).kind = kind := by
  cases kind <;> rfl

theorem stands_sample (hne : kind ≠ .eof) (afterValue : Bool) :
    (sample kind).Stands afterValue [] := by
  cases kind
  case eof => exact absurd rfl hne
  all_goals exact ⟨_, _, rfl, rfl, rfl⟩

/-- A name is recognised wherever it stands. -/
theorem stands_of_identifier {l : Lexeme} (hkind : l.kind = .identifier) (hl : l.Stands false [])
    (afterValue : Bool) : l.Stands afterValue [] := by
  obtain ⟨c, text, htext, hstop, hrecognise⟩ := hl
  refine ⟨c, text, htext, hstop, ?_⟩
  cases recognise_eq_ok_iff.mp hrecognise with
  | name starts => exact recognise_of_begins (.name starts)
  | string literal =>
    obtain ⟨body, value, -, -, -, rfl⟩ := quoted_eq_ok_iff.mp literal
    cases hkind
  | char literal =>
    obtain ⟨body, value, -, -, -, rfl⟩ := quoted_eq_ok_iff.mp literal
    cases hkind
  | minus _ _ | negative _ _ | number _ _ => cases hkind
  | symbol _ _ _ _ _ found =>
    obtain ⟨spelling, kind, before, after, -, hsymbols, -, rfl⟩ := symbol_eq_ok_iff.mp found
    have hmark : ∀ entry ∈ symbols, entry.2 ≠ .identifier := by decide
    exact absurd hkind (hmark (spelling, kind) (by simp [hsymbols]))

/-- No line feed stands in the sample of a kind. -/
theorem noLineFeed_sample (hne : kind ≠ .eof) : '\n' ∉ (sample kind).text := by
  cases kind
  case eof => exact absurd rfl hne
  all_goals decide

theorem isText_sample (hne : kind ≠ .eof) : kind.IsText (String.ofList (sample kind).text) :=
  ⟨sample kind, kind_sample kind, String.toList_ofList.symm, stands_sample hne false⟩

/-- An operator or a punctuation mark has one text. -/
theorem text_of_mark {afterValue : Bool} {c : Char} {text : List Char} {l : Lexeme}
    (hl : recognise afterValue c text = .ok l) (hmark : l.kind ∈ symbols.map Prod.snd) :
    l.text = (mark l.kind).text := by
  cases recognise_eq_ok_iff.mp hl with
  | name _ => exact absurd hmark (by decide : TokenKind.identifier ∉ symbols.map Prod.snd)
  | string literal =>
    obtain ⟨body, value, -, -, -, rfl⟩ := quoted_eq_ok_iff.mp literal
    exact absurd hmark (by decide : TokenKind.string ∉ symbols.map Prod.snd)
  | char literal =>
    obtain ⟨body, value, -, -, -, rfl⟩ := quoted_eq_ok_iff.mp literal
    exact absurd hmark (by decide : TokenKind.char ∉ symbols.map Prod.snd)
  | minus _ _ => rfl
  | negative _ _ | number _ _ =>
    exact absurd hmark (by decide : TokenKind.number ∉ symbols.map Prod.snd)
  | symbol _ _ _ _ _ found =>
    obtain ⟨spelling, kind, before, after, -, hsymbols, -, rfl⟩ := symbol_eq_ok_iff.mp found
    have hunique : ∀ entry ∈ symbols, entry.1 = (mark entry.2).text := by decide
    exact hunique (spelling, kind) (by simp [hsymbols])

end Lexeme

/-! ## What a scanner skips -/

namespace IsTrivia

variable {text more : List Char}

theorem append (h : IsTrivia text) (hmore : IsTrivia more) : IsTrivia (text ++ more) := by
  induction h with
  | nil => exact hmore
  | blank blank _ ih => exact .blank blank ih
  | line noLineFeed _ ih =>
    simp only [List.cons_append, List.append_assoc]
    exact .line noLineFeed ih
  | block noEnd _ ih =>
    simp only [List.cons_append, List.append_assoc]
    exact .block noEnd ih

theorem of_lineFeed (h : IsTrivia ('\n' :: text)) : IsTrivia text := by
  cases h with
  | blank _ tail => exact tail

end IsTrivia

/-- White space and comments, and then a line comment that no line feed closes. -/
def IsOpen (gap : List Char) : Prop :=
  ∃ front body, IsTrivia front ∧ '\n' ∉ body ∧ gap = front ++ '/' :: '/' :: body

namespace IsOpen

variable {text gap : List Char}

theorem append (htext : IsTrivia text) (h : IsOpen gap) : IsOpen (text ++ gap) := by
  obtain ⟨front, body, hfront, hbody, rfl⟩ := h
  exact ⟨text ++ front, body, htext.append hfront, hbody, (List.append_assoc ..).symm⟩

theorem of_lineFeed (h : IsOpen ('\n' :: gap)) : IsOpen gap := by
  obtain ⟨front, body, hfront, hbody, hgap⟩ := h
  cases front with
  | nil => cases hgap
  | cons c front =>
    cases hgap
    exact ⟨front, body, hfront.of_lineFeed, hbody, rfl⟩

end IsOpen

/-- A line ends before the first line feed. -/
theorem Trivia.exists_line (text : List Char) : ∃ body rest, text = body ++ rest ∧
    text.takeWhile (· ≠ '\n') = body ∧ '\n' ∉ body ∧ (rest = [] ∨ ∃ more, rest = '\n' :: more) := by
  refine ⟨_, text.dropWhile (· ≠ '\n'), List.takeWhile_append_dropWhile.symm, rfl,
    fun hmem => ?_, ?_⟩
  · simpa using List.all_eq_true.mp List.all_takeWhile '\n' hmem
  · cases hrest : text.dropWhile (· ≠ '\n') with
    | nil => exact .inl rfl
    | cons c more =>
      have hhead := List.head?_dropWhile_not (· ≠ '\n') text
      rw [hrest] at hhead
      obtain rfl : c = '\n' := by simpa using hhead
      exact .inr ⟨more, rfl⟩

/-- The first end of a block comment closes it. -/
theorem Trivia.exists_of_throughCommentEnd? {text piece : List Char}
    (h : throughCommentEnd? text = some piece) :
    ∃ body, ¬['*', '/'] <:+: body ∧ piece = body ++ ['*', '/'] := by
  fun_induction throughCommentEnd? text generalizing piece with
  | case1 => cases h
  | case2 text =>
    cases h
    exact ⟨[], by decide, rfl⟩
  | case3 c text hno ih =>
    obtain ⟨rest, hrest, rfl⟩ := Option.map_eq_some_iff.mp h
    obtain ⟨body, hbody, rfl⟩ := ih hrest
    refine ⟨c :: body, fun hinner => ?_, rfl⟩
    obtain hstarts | hinner := List.infix_cons_iff.mp hinner
    · obtain ⟨rfl, after, rfl⟩ := List.cons_prefix_cons.mp hstarts
      obtain ⟨more, rfl⟩ := prefix_of_throughCommentEnd? hrest
      exact hno _ rfl rfl
    · exact hbody hinner

namespace Scanner

variable {scanner : Scanner}

theorem gap_of_none (h : Trivia.take? scanner.rest = none) : scanner.gap = [] := by
  rw [gap, skipTrivia_of_none h, Nat.sub_self, List.take_zero]

theorem gap_of_some {piece : List Char} (h : Trivia.take? scanner.rest = some piece) :
    scanner.gap = piece ++ (scanner.skip piece).gap := by
  obtain ⟨rest, hrest⟩ := Trivia.prefix_of_take? h
  have hskip : (scanner.skip piece).rest = rest := by rw [skip, ← hrest, List.drop_left]
  have hwhole := (skipTrivia_of_gap scanner).1
  have hpart := (skipTrivia_of_gap (scanner.skip piece)).1
  rw [← hrest, ← hskip, hpart, skipTrivia_of_some h, ← List.append_assoc] at hwhole
  exact (List.append_cancel_right hwhole).symm

/-- What a scanner skips is white space and comments. The last comment may be open if nothing
follows it. -/
theorem gap_cases (scanner : Scanner) :
    IsTrivia scanner.gap ∨ IsOpen scanner.gap ∧ scanner.skipTrivia.rest = [] := by
  fun_induction skipTrivia scanner with
  | case1 scanner htake => exact .inl (gap_of_none htake ▸ .nil)
  | case2 scanner piece htake ih =>
    rw [gap_of_some htake]
    -- A piece that is closed leaves the rest of the gap as it is.
    have hclosed (hpiece : IsTrivia piece) : IsTrivia (piece ++ (scanner.skip piece).gap) ∨
        IsOpen (piece ++ (scanner.skip piece).gap) ∧
          (scanner.skip piece).skipTrivia.rest = [] :=
      ih.imp hpiece.append (And.imp_left (.append hpiece))
    obtain ⟨c, rest, -, hblank, rfl⟩ | ⟨rest, hrest, rfl⟩ | ⟨rest, body, -, hbody, rfl⟩ :=
      Trivia.take?_eq_some_iff.mp htake
    · exact hclosed (.blank hblank .nil)
    · obtain ⟨body, after, rfl, hbody, hfeed, hafter⟩ := Trivia.exists_line rest
      rw [hbody] at hclosed htake ih ⊢
      have hskip : (scanner.skip ('/' :: '/' :: body)).rest = after := by
        rw [skip, hrest]
        simp
      obtain rfl | ⟨more, rfl⟩ := hafter
      · have hnone : Trivia.take? (scanner.skip ('/' :: '/' :: body)).rest = none := hskip ▸ rfl
        rw [gap_of_none hnone, skipTrivia_of_none hnone, List.append_nil]
        exact .inr ⟨⟨[], body, .nil, hfeed, rfl⟩, hskip⟩
      · have hbreak : Trivia.take? (scanner.skip ('/' :: '/' :: body)).rest = some ['\n'] :=
          hskip ▸ Trivia.take?_eq_some_iff.mpr (.inl ⟨_, _, rfl, isWhitespace_newline, rfl⟩)
        have hline : IsTrivia ('/' :: '/' :: body ++ '\n' :: []) := .line hfeed .nil
        rw [gap_of_some hbreak] at ih ⊢
        rw [← List.append_assoc]
        exact ih.imp (fun htrivia => hline.append htrivia.of_lineFeed)
          (And.imp_left fun hopen => hopen.of_lineFeed.append hline)
    · obtain ⟨inner, hinner, rfl⟩ := Trivia.exists_of_throughCommentEnd? hbody
      exact hclosed (.block hinner .nil)

/-- A scanner goes over a gap and a space behind it. -/
theorem skipTrivia_before_space {text : List Char} (hgap : IsTrivia scanner.rest)
    (htext : Trivia.take? text = none) :
    (scanner.before (' ' :: text)).skipTrivia.rest = text ∧
      (scanner.before (' ' :: text)).skipTrivia.lineBreak = scanner.skipTrivia.lineBreak := by
  obtain ⟨rest, offset, lineBreak, afterValue⟩ := scanner
  have hspace : IsTrivia [' '] := .blank (by decide) .nil
  have hown := skipTrivia_of_isTrivia hgap (rfl : Trivia.take? [] = none) offset lineBreak
    afterValue
  have hmore := skipTrivia_of_isTrivia (hgap.append hspace) htext offset lineBreak afterValue
  rw [List.append_nil] at hown
  rw [List.append_assoc] at hmore
  refine ⟨congrArg Scanner.rest hmore, (congrArg Scanner.lineBreak hmore).trans ?_⟩
  rw [hown]
  simp

/-- A scanner goes over a comment that is open up to the end. -/
theorem skipTrivia_of_open {front body : List Char} (hfront : IsTrivia front) (hbody : '\n' ∉ body)
    (hrest : scanner.rest = front ++ '/' :: '/' :: body) :
    scanner.skipTrivia.rest = [] ∧
      scanner.skipTrivia.lineBreak = (scanner.lineBreak || front.contains '\n') := by
  obtain ⟨rest, offset, lineBreak, afterValue⟩ := scanner
  subst hrest
  have hline : (body ++ []).takeWhile (· ≠ '\n') = body ++ [] :=
    List.takeWhile_append_of_pos (by simpa using fun c hc => ne_of_mem_of_not_mem hc hbody)
  have htake : Trivia.take? ('/' :: '/' :: body ++ []) = some ('/' :: '/' :: body) :=
    Trivia.take?_eq_some_iff.mpr (.inr (.inl ⟨body ++ [], rfl, by rw [hline, List.append_nil]⟩))
  have hskip := (skipTrivia_append hfront ('/' :: '/' :: body ++ []) offset lineBreak
    afterValue).trans (skipTrivia_of_piece htake ..)
  have hnone (offset : Nat) (lineBreak afterValue : Bool) :
      skipTrivia ⟨[], offset, lineBreak, afterValue⟩ = ⟨[], offset, lineBreak, afterValue⟩ :=
    skipTrivia_of_none rfl
  rw [List.append_nil, hnone] at hskip
  rw [hskip]
  exact ⟨rfl, by simp [hbody]⟩

theorem skipTrivia_of_end (h : scanner.rest = []) : scanner.skipTrivia.rest = [] := by
  rw [skipTrivia_of_none (h ▸ rfl), h]

/-! ### The tokens that are read -/

variable {file : String} {last : Scanner} {ts us : List Token}

namespace Reads

theorem size_eq (h : scanner.Reads file ts last) : last.size = scanner.size := by
  induction h with
  | refl => rfl
  | step head _ ih => exact ih.trans (place_of_scan head).1

theorem rest_suffix (h : scanner.Reads file ts last) : last.rest <:+ scanner.rest := by
  induction h with
  | refl => exact List.suffix_rfl
  | @step scanner next _ t _ head _ ih =>
    obtain ⟨c, text, l, -, -, hemit⟩ := scan_eq_token_iff.mp head
    refine ih.trans ?_
    cases hemit
    exact (List.drop_suffix ..).trans ⟨scanner.gap, (skipTrivia_of_gap scanner).1.symm⟩

theorem exists_of_append (h : scanner.Reads file (us ++ ts) last) :
    ∃ middle, scanner.Reads file us middle ∧ middle.Reads file ts last := by
  induction us generalizing scanner with
  | nil => exact ⟨scanner, .refl scanner, h⟩
  | cons t us ih =>
    cases h with
    | step head tail =>
      obtain ⟨middle, hmiddle, hlast⟩ := ih tail
      exact ⟨middle, .step head hmiddle, hlast⟩

end Reads

end Scanner

/-- The tokens of a source are those that a scanner reads, if nothing follows them. -/
theorem TokenStream.exists_ofSource_of_reads {source file : String} {us : List Token}
    {last : Scanner} (h : (Scanner.ofSource source).Reads file us last)
    (hend : last.skipTrivia.rest = []) :
    ∃ stop, ofSource source file = ⟨us, .ok stop⟩ ∧
      stop.span.start = .ofOffset source.utf8ByteSize file ∧
      stop.unplaced = ⟨.eof, "EOF", default, last.skipTrivia.lineBreak⟩ := by
  have hscan : last.scan file = .ended (last.skipTrivia.endToken file) last.skipTrivia :=
    Scanner.scan_eq_ended_iff.mpr ⟨hend, rfl, rfl⟩
  refine ⟨last.skipTrivia.endToken file, ?_, ?_, rfl⟩
  · rw [ofSource, ofScanner_of_reads h, ofScanner_of_ended hscan, List.append_nil]
  · rw [Scanner.place_of_scan_ended hscan, h.size_eq, Scanner.size_ofSource]

/-- The tokens for the end of sources differ only in their places and in the line breaks before. -/
theorem TokenStream.unplaced_of_ending {source file : String} {t : Token}
    (h : (ofSource source file).ending = .ok t) :
    t.unplaced = ⟨.eof, "EOF", default, t.newlineBefore⟩ := by
  obtain ⟨last, -, hending⟩ := reads_ofScanner file (Scanner.ofSource source)
  obtain ⟨stop, stay, hscan, hstop⟩ | ⟨error, stay, -, herror⟩ := hending
  · rw [ofSource, hstop] at h
    cases h
    obtain ⟨-, rfl, -⟩ := Scanner.scan_eq_ended_iff.mp hscan
    rfl
  · rw [ofSource, herror] at h
    cases h

/-! ## Cutting a source -/

/-- The part of a source in front of a token: a scanner reads the tokens before it there, and goes
over all that is left. -/
structure Cut (file front : String) (before : List Token) (mark : Token) (own : Scanner) :
    Prop where
  reads : (Scanner.ofSource front).Reads file before own
  ends : own.skipTrivia.rest = []
  line : own.skipTrivia.lineBreak = mark.newlineBefore
  position : mark.span.start = .ofOffset front.utf8ByteSize file
  gap : IsTrivia own.rest ∨ IsOpen own.rest ∧ mark.kind = .eof

/-- A source is cut in front of each of its tokens, and in front of the one for its end. -/
theorem exists_cut {source file : String} {before ts : List Token} {mark : Token}
    {behind : TokenStream} (htokens : (TokenStream.ofSource source file).tokens = before ++ ts)
    (hread : (⟨ts, (TokenStream.ofSource source file).ending⟩ : TokenStream).read =
      .ok (mark, behind)) :
    ∃ front back own, source = front ++ back ∧ Cut file front before mark own := by
  obtain ⟨last, hreads, hending⟩ := TokenStream.reads_ofScanner file (Scanner.ofSource source)
  change (TokenStream.ofScanner file (Scanner.ofSource source)).tokens = _ at htokens
  rw [htokens] at hreads
  obtain ⟨middle, hmiddle, htail⟩ := hreads.exists_of_append
  have hmark : mark.span.start = .ofOffset middle.skipTrivia.offset file ∧
      middle.skipTrivia.lineBreak = mark.newlineBefore ∧
      (middle.skipTrivia.rest = [] → mark.kind = .eof) := by
    cases htail with
    | refl =>
      obtain ⟨stop, stay, hscan, hstop⟩ | ⟨error, stay, -, herror⟩ := hending
      · rw [TokenStream.ofSource, hstop] at hread
        cases hread
        obtain ⟨-, rfl, -⟩ := Scanner.scan_eq_ended_iff.mp hscan
        exact ⟨rfl, rfl, fun _ => rfl⟩
      · rw [TokenStream.ofSource, herror] at hread
        cases hread
    | step head tail =>
      cases hread
      obtain ⟨c, text, l, hrest, -, hemit⟩ := Scanner.scan_eq_token_iff.mp head
      cases hemit
      exact ⟨rfl, rfl, fun hnil => by rw [hnil] at hrest; cases hrest⟩
  obtain ⟨hposition, hline, heof⟩ := hmark
  -- The source is cut where the scanner stands behind the gap.
  have hgap := middle.gap_cases
  have hcut := (Scanner.skipTrivia_of_gap middle).1
  have hskip := Scanner.length_skipTrivia_le middle
  obtain ⟨front, hfront⟩ : middle.skipTrivia.rest <:+ source.toList :=
    List.IsSuffix.trans ⟨middle.gap, hcut.symm⟩ hmiddle.rest_suffix
  generalize hback : middle.skipTrivia.rest = back at *
  have hsource : source = String.ofList (front ++ back) := by
    rw [hfront, String.ofList_toList]
  rw [hsource, Gap.ofSource_append] at hmiddle
  obtain ⟨own, rfl, hown⟩ := hmiddle.of_before hskip
  have hbefore := own.skipTrivia_of_before (Nat.le_of_eq (congrArg List.length hback).symm)
  rw [hbefore] at hback hposition hline
  have hends : own.skipTrivia.rest = [] := List.append_left_eq_self.mp hback
  have hrest : own.rest = (own.before back).gap := List.append_cancel_right hcut
  refine ⟨String.ofList front, String.ofList back, own, by rw [hsource, String.ofList_append],
    hown, hends, hline, ?_, ?_⟩
  · have hsize := (Scanner.place_skipTrivia own).1
    rw [hown.size_eq, Scanner.size_ofSource, Scanner.size, hends] at hsize
    rw [hposition, ← hsize]
    rfl
  · rw [hrest]
    exact hgap.imp_right (And.imp_right heof)

namespace Cut

variable {file front : String} {before : List Token} {mark : Token} {own : Scanner}

/-- The source in front of the token has the tokens before it. -/
theorem ofSource_front (h : Cut file front before mark own) :
    ∃ stop, TokenStream.ofSource front file = ⟨before, .ok stop⟩ ∧
      stop.unplaced = ⟨.eof, "EOF", default, mark.newlineBefore⟩ := by
  obtain ⟨stop, hstream, -, hstop⟩ := TokenStream.exists_ofSource_of_reads h.reads h.ends
  exact ⟨stop, hstream, h.line ▸ hstop⟩

theorem ofSource_append (front : String) (text : List Char) :
    Scanner.ofSource (front ++ " " ++ String.ofList text) =
      (Scanner.ofSource front).before (' ' :: text) := by
  simp [Scanner.ofSource, Scanner.before]

/-- With a space and the text of a token behind it, it has this token as well. -/
theorem ofSource_sample (h : Cut file front before mark own) (hgap : IsTrivia own.rest)
    {l : Lexeme} (hl : ∀ afterValue, l.Stands afterValue []) :
    ∃ t stop, TokenStream.ofSource (front ++ " " ++ String.ofList l.text) file =
        ⟨before ++ [t], .ok stop⟩ ∧
      t.kind = l.kind ∧ t.value = l.value ∧ t.newlineBefore = mark.newlineBefore ∧
      t.span.start = .ofOffset (front ++ " ").utf8ByteSize file ∧
      stop.span.start =
        .ofOffset (front ++ " " ++ String.ofList l.text).utf8ByteSize file := by
  have hspace : Lexeme.BeginsApart (' ' :: l.text) := ⟨' ', _, rfl, by decide⟩
  have hreads := h.reads.before hspace
  rw [← ofSource_append] at hreads
  obtain ⟨c, text, htext, hstop, hrecognise⟩ :=
    hl (own.before (' ' :: l.text)).skipTrivia.afterValue
  rw [List.append_nil] at htext
  obtain ⟨hrest, hline⟩ := Scanner.skipTrivia_before_space hgap (htext ▸ hstop)
  obtain ⟨t, next, hemit⟩ :
      ∃ t next, (own.before (' ' :: l.text)).skipTrivia.emit file l = (t, next) := ⟨_, _, rfl⟩
  have hscan : (own.before (' ' :: l.text)).scan file = .token t next :=
    Scanner.scan_eq_token_iff.mpr ⟨c, text, l, hrest.trans htext, hrecognise, hemit⟩
  have hend : next.rest = [] := by
    rw [← (Prod.mk.inj hemit).2]
    change (own.before (' ' :: l.text)).skipTrivia.rest.drop l.text.length = []
    rw [hrest]
    exact List.drop_length
  obtain ⟨stop, hstream, hposition, -⟩ := TokenStream.exists_ofSource_of_reads
    (hreads.trans (.step hscan (.refl next))) (Scanner.skipTrivia_of_end hend)
  have hsize := (Scanner.place_skipTrivia (own.before (' ' :: l.text))).1
  rw [hreads.size_eq, Scanner.size_ofSource, Scanner.size, hrest, String.utf8ByteSize_append,
    Utf8.utf8ByteSize_ofList] at hsize
  refine ⟨t, stop, hstream, ?_⟩
  rw [← (Prod.mk.inj hemit).1]
  exact ⟨rfl, rfl, hline.trans h.line,
    congrArg (Position.ofOffset · file) (Nat.add_right_cancel hsize), hposition⟩

/-- Behind a line comment that is open, no text without a line feed adds a token. -/
theorem ofSource_comment (h : Cut file front before mark own) (hgap : IsOpen own.rest)
    {text : List Char} (htext : '\n' ∉ text) :
    ∃ stop, TokenStream.ofSource (front ++ " " ++ String.ofList text) file =
        ⟨before, .ok stop⟩ ∧
      stop.unplaced = ⟨.eof, "EOF", default, mark.newlineBefore⟩ ∧
      stop.span.start = .ofOffset (front ++ " " ++ String.ofList text).utf8ByteSize file := by
  have hspace : Lexeme.BeginsApart (' ' :: text) := ⟨' ', _, rfl, by decide⟩
  have hreads := h.reads.before hspace
  rw [← ofSource_append] at hreads
  obtain ⟨trivia, body, htrivia, hbody, hrest⟩ := hgap
  obtain ⟨-, hline⟩ := Scanner.skipTrivia_of_open htrivia hbody hrest
  have hrest' : (own.before (' ' :: text)).rest =
      trivia ++ '/' :: '/' :: (body ++ ' ' :: text) := by
    simp [hrest]
  obtain ⟨hend, hline'⟩ := Scanner.skipTrivia_of_open htrivia (by simp [hbody, htext]) hrest'
  obtain ⟨stop, hstream, hposition, hstop⟩ := TokenStream.exists_ofSource_of_reads hreads hend
  refine ⟨stop, hstream, ?_, hposition⟩
  rw [hstop, hline', ← h.line, hline]
  rfl

end Cut

end SurfaceGrammar

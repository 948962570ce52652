import SurfaceGrammar.Proofs.Grammar.Readers
import SurfaceGrammar.Proofs.Token.Signs

/-!
# The place between two tokens

A parse stands between the token that was passed last and the one that comes next. What lies between
the two in the source is white space and comments, and the token is marked as one on a new line if
there is a line feed in it. The end of the last token, the current token, the cursor of the lexer
and the token that was looked at change at different times, but they keep this up in every state
that calls lead to, as long as the token for the end was not passed. Behind that token there is
nothing to stand at, and it stays the current one: the gap before it is passed and its mark remains.

* `Stands`: where a parse stands in its source, with the scanner behind its token.
* `Stands.of_read`: a parse at the first token that a scanner finds.
* `ParseState.PastEnd`: the states that show that the token for the end was passed.
* `ParseState.Separated`: the gap before a token, and what comes behind the token.
* `Session.separated_of_reached`: the gap in every session.
-/

namespace SurfaceGrammar

/-! ## Places -/

/-- Where a parse stands in its source, by the end of the last token, the current token and the
tokens behind it, and whether the token for the end was passed. Before that, the parse stands at a
token with a scanner behind it, or at the token for the end. -/
inductive Stands (source file : String) : Bool → Position → Token → TokenStream → Prop
  | token {before gap text : List Char} {current : Token} {scanner : Scanner}
    (cut : source.toList = before ++ gap ++ text ++ scanner.rest) (trivia : IsTrivia gap)
    (covers : current.Covers file (Utf8.size (before ++ gap)) text)
    (line : current.newlineBefore = true ↔ '\n' ∈ gap)
    (offset : scanner.offset = Utf8.size (before ++ gap ++ text))
    (follows : scanner.Follows (some current)) :
    Stands source file false (.ofOffset (Utf8.size before) file) current (.ofScanner file scanner)
  | last {before gap : List Char} {stop : Token} (cut : source.toList = before ++ gap)
    (trivia : IsTrivia gap ∨ IsOpen gap) (kind : stop.kind = .eof)
    (span : stop.span = ⟨.ofOffset (Utf8.size (before ++ gap)) file,
      .ofOffset (Utf8.size (before ++ gap)) file⟩)
    (line : stop.newlineBefore = true ↔ '\n' ∈ gap) :
    Stands source file false (.ofOffset (Utf8.size before) file) stop ⟨[], .ok stop⟩
  | past {stop : Token} (kind : stop.kind = .eof)
    (span : stop.span = ⟨.ofOffset (Utf8.size source.toList) file,
      .ofOffset (Utf8.size source.toList) file⟩) :
    Stands source file true (.ofOffset (Utf8.size source.toList) file) stop ⟨[], .ok stop⟩

/-- The first token that a scanner finds, or the one for the end, stands behind the gap. -/
theorem Scanner.start_of_reading {file : String} {scanner : Scanner} {t : Token}
    (h : (TokenStream.ofScanner file scanner).reading 0 = .ok t) :
    t.span.start = .ofOffset (scanner.offset + Utf8.size scanner.gap) file := by
  cases hscan : scanner.scan file with
  | token u next =>
    obtain ⟨text, -, -, -, hcovers, -, -⟩ := exists_covers_of_scan hscan
    rw [TokenStream.ofScanner_of_token hscan] at h
    cases h
    rw [hcovers.span]
  | ended u stay =>
    obtain ⟨-, -, -, hspan, -⟩ := rest_of_ended hscan
    rw [TokenStream.ofScanner_of_ended hscan] at h
    cases h
    rw [hspan]
  | failed e stay =>
    rw [TokenStream.ofScanner_of_failed hscan] at h
    cases h

namespace Stands

variable {source file : String} {ended : Bool} {lastEnd : Position} {current next : Token}
  {upcoming rest : TokenStream}

/-- A parse at the first token that a scanner finds behind a part of a source. -/
theorem of_read {before : List Char} {scanner : Scanner} {previous : Option Token}
    (hcut : source.toList = before ++ scanner.rest) (hoffset : scanner.offset = Utf8.size before)
    (hfollows : scanner.Follows previous)
    (hread : (TokenStream.ofScanner file scanner).read = .ok (current, upcoming)) :
    Stands source file false (.ofOffset (Utf8.size before) file) current upcoming := by
  cases hscan : scanner.scan file with
  | token t after =>
    rw [TokenStream.ofScanner_of_token hscan] at hread
    cases hread
    obtain ⟨text, -, hrest, htrivia, hcovers, hafter, hline⟩ := Scanner.exists_covers_of_scan hscan
    rw [hoffset, ← Utf8.size_append] at hcovers hafter
    rw [← Utf8.size_append] at hafter
    refine .token ?_ htrivia hcovers ?_ hafter (.of_scan hscan)
    · rw [hcut, hrest]
      simp only [List.append_assoc]
    · rw [hline]
      exact hfollows.lineBreak_iff
  | ended t stay =>
    rw [TokenStream.ofScanner_of_ended hscan] at hread
    cases hread
    obtain ⟨hrest, htrivia, hkind, hspan, hline⟩ := Scanner.rest_of_ended hscan
    rw [hoffset, ← Utf8.size_append] at hspan
    refine .last ?_ htrivia hkind hspan ?_
    · rw [hcut, hrest]
    · rw [hline]
      exact hfollows.lineBreak_iff
  | failed e stay =>
    rw [TokenStream.ofScanner_of_failed hscan] at hread
    cases hread

/-- Going on to the next token. -/
theorem advance (h : Stands source file ended lastEnd current upcoming)
    (hread : upcoming.read = .ok (next, rest)) :
    Stands source file (ended || current.kind = .eof) current.span.stop next rest := by
  cases h with
  | token cut trivia covers line offset follows =>
    rw [decide_eq_false covers.ne_eof, Bool.or_false, covers.span, ← Utf8.size_append]
    exact of_read cut offset follows hread
  | last cut trivia kind span line =>
    cases hread
    rw [decide_eq_true kind, Bool.or_true, span, ← cut]
    exact .past kind (by rw [span, cut])
  | past kind span =>
    cases hread
    rw [Bool.true_or, span]
    exact .past kind span

/-- At the token for the end this token is read again. -/
theorem read_of_eof (h : Stands source file ended lastEnd current upcoming)
    (heof : current.kind = .eof) : upcoming.read = .ok (current, upcoming) := by
  cases h with
  | token cut trivia covers line offset follows => exact absurd heof covers.ne_eof
  | last | past => rfl

/-- A step that cannot read the next token does not go past the end. -/
theorem advance_of_error (h : Stands source file ended lastEnd current upcoming) {e : Error}
    (hread : upcoming.read = .error e) : (ended || current.kind = .eof) = ended := by
  cases h with
  | token cut trivia covers line offset follows =>
    rw [decide_eq_false covers.ne_eof, Bool.or_false]
  | last | past => cases hread

end Stands

namespace ParseState

variable {source : String} {settings : Settings} {ended : Bool} {s : ParseState}

theorem stands_of_start (h : start source settings = .ok s) :
    Stands source settings.file false s.lastEnd s.current s.upcoming := by
  obtain ⟨t, rest, hread, rfl⟩ := start_eq_ok_iff.mp h
  have hcut : source.toList = [] ++ (Scanner.ofSource source).rest := rfl
  exact .of_read hcut rfl (.ofSource source) hread

/-- Every state that single steps lead to stands at its place in the source. -/
theorem Reached.stands (h : s.Reached source settings ended) :
    Stands source settings.file ended s.lastEnd s.current s.upcoming := by
  induction h with
  | start h => exact stands_of_start h
  | @advance ended s h ih =>
    cases hread : s.upcoming.read with
    | ok next =>
      rw [Parse.after_of_ok (Parse.advance_of_read hread)]
      exact ih.advance hread
    | error e =>
      rw [Parse.after_of_error (Parse.advance_of_error hread), ih.advance_of_error hread]
      exact ih
  | @peek ended s h ih =>
    obtain ⟨peeked, events, hpeek⟩ := Parse.after_peek s
    rw [hpeek]
    exact ih
  | context depth inReturnType h ih => exact ih
  | record event h ih => exact ih

/-! ## The token for the end -/

/-- Where the token for the end is passed, it is read again and nothing is recorded. -/
theorem Reached.advance_of_eof (h : s.Reached source settings ended)
    (heof : s.current.kind = .eof) :
    Parse.advance.after s = { s with peeked := false, lastEnd := s.current.span.stop } := by
  rw [Parse.after_of_ok (Parse.advance_of_read (h.stands.read_of_eof heof)), lexed, if_pos heof,
    Array.append_empty, ite_self]

theorem Reached.peek_of_eof (h : s.Reached source settings ended) (heof : s.current.kind = .eof) :
    Parse.peek.after s = { s with peeked := true } := by
  rw [Parse.after_of_ok (Parse.peek_eq_of_read (h.stands.read_of_eof heof)), lexed, if_pos heof,
    Array.append_empty, ite_self]

/-- A state at the token for the end is also reached without a look at the next token. -/
theorem Reached.unpeeked (h : s.Reached source settings ended) (heof : s.current.kind = .eof) :
    Reached source settings ended { s with peeked := false } := by
  induction h with
  | start h =>
    obtain ⟨t, rest, hread, rfl⟩ := start_eq_ok_iff.mp h
    exact .start h
  | @advance ended s h ih =>
    cases hread : s.upcoming.read with
    | ok next =>
      have hadvance := h.advance
      rw [Parse.after_of_ok (Parse.advance_of_read hread)] at hadvance ⊢
      exact hadvance
    | error e =>
      rw [Parse.after_of_error (Parse.advance_of_error hread)] at heof ⊢
      rw [h.stands.advance_of_error hread]
      exact ih heof
  | @peek ended s h ih =>
    obtain ⟨peeked, events, hpeek⟩ := Parse.after_peek s
    have hcurrent : s.current.kind = .eof := by rwa [hpeek] at heof
    rw [h.peek_of_eof hcurrent]
    exact ih hcurrent
  | context depth inReturnType h ih => exact (ih heof).context depth inReturnType
  | record event h ih => exact (ih heof).record event

/-- The token for the end was passed: the parse stands at it as before, but the end of the last
token, which was another one before, is that of the token for the end. -/
structure PastEnd (source : String) (settings : Settings) (s : ParseState) : Prop where
  reached : s.Reached source settings true
  lastEnd : s.lastEnd = s.current.span.stop
  before : ∃ s₀, Reached source settings false s₀ ∧ s₀.current.kind = .eof ∧
    s.current = s₀.current ∧ s.lastEnd ≠ s₀.lastEnd

theorem PastEnd.eof (h : s.PastEnd source settings) : s.current.kind = .eof := by
  obtain ⟨s₀, -, heof, hcurrent, -⟩ := h.before
  rwa [hcurrent]

theorem PastEnd.congr (h : s.PastEnd source settings) {s' : ParseState}
    (hreached : s'.Reached source settings true) (hcurrent : s'.current = s.current)
    (hlastEnd : s'.lastEnd = s.lastEnd) : s'.PastEnd source settings where
  reached := hreached
  lastEnd := by rw [hlastEnd, hcurrent, h.lastEnd]
  before := by rw [hlastEnd, hcurrent]; exact h.before

/-- There are single steps that lead to the state and do not pass the token for the end, or the
state shows that it was passed. -/
def ShowsEnd (source : String) (settings : Settings) (s : ParseState) : Prop :=
  s.Reached source settings false ∨ s.PastEnd source settings

/-- If nothing lies between the last token and the end, the state does not change when the token for
the end is passed. -/
theorem ShowsEnd.advance (h : s.ShowsEnd source settings) :
    (Parse.advance.after s).ShowsEnd source settings := by
  obtain h | h := h
  · have hadvance := h.advance
    by_cases heof : s.current.kind = .eof
    · rw [h.advance_of_eof heof] at hadvance ⊢
      by_cases hlastEnd : s.current.span.stop = s.lastEnd
      · rw [hlastEnd]
        exact .inl (h.unpeeked heof)
      · rw [Bool.false_or, decide_eq_true heof] at hadvance
        exact .inr ⟨hadvance, rfl, s, h, heof, rfl, hlastEnd⟩
    · rw [Bool.false_or, decide_eq_false heof] at hadvance
      exact .inl hadvance
  · have hadvance := h.reached.advance
    rw [h.reached.advance_of_eof h.eof, Bool.true_or] at hadvance
    rw [h.reached.advance_of_eof h.eof]
    exact .inr (h.congr hadvance rfl h.lastEnd.symm)

instance stable_showsEnd (source : String) (settings : Settings) :
    Stable (ShowsEnd source settings) where
  context _ depth inReturnType h :=
    h.imp (·.context depth inReturnType) fun h =>
      h.congr (h.reached.context depth inReturnType) rfl rfl
  record event _ := fun _ h =>
    h.imp (·.record event) fun h => h.congr (h.reached.record event) rfl rfl
  advance := fun _ h => h.advance
  peek := fun s h =>
    h.imp (·.peek) fun h => by
      obtain ⟨peeked, events, hpeek⟩ := Parse.after_peek s
      have hreached := h.reached.peek
      rw [hpeek] at hreached ⊢
      exact h.congr hreached rfl rfl

/-! ## Gaps -/

/-- Between the end of the last token and the current one there is a gap in the source, and the next
token comes behind the current one. -/
structure Separated (source file : String) (gap : List Char) (s : ParseState) : Prop where
  cut : ∃ before after, source.toList = before ++ gap ++ after ∧
    s.lastEnd = .ofOffset (Utf8.size before) file ∧
    s.position = .ofOffset (Utf8.size (before ++ gap)) file ∧
    (IsTrivia gap ∨ after = [] ∧ IsOpen gap)
  lastEnd_le : s.lastEnd.byte ≤ s.position.byte
  next : ∀ t, s.upcoming.reading 0 = .ok t → s.current.span.Precedes t.span

end ParseState

/-- A gap in a source whose bytes can be counted does not end before it begins. -/
theorem Position.byte_le_byte {source : String} {before gap after : List Char} (file : String)
    (hsize : source.utf8ByteSize < UInt32.size) (hcut : source.toList = before ++ gap ++ after) :
    (Position.ofOffset (Utf8.size before) file).byte ≤
      (Position.ofOffset (Utf8.size (before ++ gap)) file).byte := by
  rw [← Utf8.size_toList, hcut, Utf8.size_append, Utf8.size_append] at hsize
  rw [Utf8.size_append, byte_ofOffset file (by omega), byte_ofOffset file (by omega)]
  omega

theorem ParseState.Separated.of_cut {source file : String} {before gap after : List Char}
    {s : ParseState} (hsize : source.utf8ByteSize < UInt32.size)
    (hcut : source.toList = before ++ gap ++ after)
    (hlastEnd : s.lastEnd = .ofOffset (Utf8.size before) file)
    (hposition : s.position = .ofOffset (Utf8.size (before ++ gap)) file)
    (htrivia : IsTrivia gap ∨ after = [] ∧ IsOpen gap)
    (hnext : ∀ t, s.upcoming.reading 0 = .ok t → s.current.span.Precedes t.span) :
    s.Separated source file gap where
  cut := ⟨before, after, hcut, hlastEnd, hposition, htrivia⟩
  lastEnd_le := by
    rw [hlastEnd, hposition]
    exact Position.byte_le_byte file hsize hcut
  next := hnext

/-- Where a parse stands there is a gap before its token. The mark on the token tells if there is a
line feed in it, unless the token for the end was passed. -/
theorem Stands.exists_gap {source file : String} {ended : Bool} {s : ParseState}
    (h : Stands source file ended s.lastEnd s.current s.upcoming)
    (hsize : source.utf8ByteSize < UInt32.size) : ∃ gap, s.Separated source file gap ∧
      (ended = false → (s.current.newlineBefore = true ↔ '\n' ∈ gap)) ∧
      (ended = true → s.current.kind = .eof ∧ gap = []) := by
  obtain ⟨upcoming, peeked, current, lastEnd, depth, returnType, events⟩ := s
  change Stands source file ended lastEnd current upcoming at h
  -- The token for the end is read again and again, and takes up nothing.
  have hstop : ∀ p t, current.span = ⟨p, p⟩ →
      (⟨[], .ok current⟩ : TokenStream).reading 0 = .ok t → current.span.Precedes t.span := by
    intro p t hspan ht
    cases ht
    rw [hspan]
    exact Nat.le_refl _
  cases h with
  | @token before gap text _ scanner cut trivia covers line offset follows =>
    refine ⟨gap, ?_, fun _ => line, fun hended => absurd hended Bool.false_ne_true⟩
    have hrest := (Scanner.skipTrivia_of_gap scanner).1
    refine .of_cut hsize (cut.trans (List.append_assoc ..)) rfl ?_ (.inl trivia) fun t ht => ?_
    · exact congrArg Span.start covers.span
    · rw [hrest, ← List.append_assoc] at cut
      rw [Span.Precedes, Scanner.start_of_reading ht, covers.span, offset, ← Utf8.size_append,
        ← Utf8.size_append]
      exact Position.byte_le_byte file hsize cut
  | @last before gap _ cut trivia kind span line =>
    refine ⟨gap, ?_, fun _ => line, fun hended => absurd hended Bool.false_ne_true⟩
    refine .of_cut hsize (cut.trans (List.append_nil _).symm) rfl ?_ ?_ fun t => hstop _ t span
    · exact congrArg Span.start span
    · exact trivia.imp_right fun hopen => ⟨rfl, hopen⟩
  | past kind span =>
    refine ⟨[], ?_, fun hended => absurd hended.symm Bool.false_ne_true, fun _ => ⟨kind, rfl⟩⟩
    have hcut : source.toList = source.toList ++ [] ++ [] := by
      rw [List.append_nil, List.append_nil]
    refine .of_cut hsize hcut rfl ?_ (.inl .nil) fun t => hstop _ t span
    rw [List.append_nil]
    exact congrArg Span.start span

/-- A token that a lexer was asked to look at is the first of those that it gives. -/
theorem Lexer.Offers.reading_of_peeked {lexer : Lexer} {stream : TokenStream} {t : Token}
    (h : lexer.Offers stream) (hpeeked : lexer.peeked = some t) : stream.reading 0 = .ok t := by
  cases h with
  | unseen beyond peeked =>
    rw [peeked] at hpeeked
    cases hpeeked
  | seen beyond peeked first rest =>
    rw [peeked] at hpeeked
    cases hpeeked
    exact first

/-- Calls do not pass the token for the end, unless the state shows that it was passed. -/
theorem Session.Reached.showsEnd {source : String} {settings : Settings} {session : Session}
    (h : session.Reached source settings) : session.state.ShowsEnd source settings := by
  induction h with
  | start h => exact .inl (.start h)
  | call h call ih => exact after_keeps settings call ih

/-! ## The main statement -/

/-- In a source whose bytes can be counted with the 32 bits of an offset, single steps lead to every
state that calls lead to. They do not pass the token for the end, unless the state shows that it was
passed: the end of the last token has moved to that of the token for the end. However they do so, a
gap of white space and comments lies between the end of the last token and the current token, and
the next token comes behind that, also the one that a reader has looked at. As long as the token for
the end was not passed, the current token is marked as one on a new line exactly if there is a line
feed in the gap. -/
theorem Session.separated_of_reached {source : String} {settings : Settings} {session : Session}
    (hsize : source.utf8ByteSize < UInt32.size) (h : session.Reached source settings) :
    (session.state.Reached source settings false ∨ session.state.PastEnd source settings) ∧
    (∀ ended, session.state.Reached source settings ended →
      ∃ gap, session.state.Separated source settings.file gap ∧
        (ended = false → (session.state.current.newlineBefore = true ↔ '\n' ∈ gap)) ∧
        (ended = true → session.state.current.kind = .eof ∧ gap = [])) ∧
    ∀ reader, TokenReader.Runs source settings reader session.state → ∀ t,
      reader.lexer.peeked = some t → session.state.current.span.Precedes t.span := by
  refine ⟨h.showsEnd, fun ended hstate => hstate.stands.exists_gap hsize, ?_⟩
  intro reader hreader t hpeeked
  obtain ⟨ended, hstate⟩ := h.state
  obtain ⟨gap, hgap, -⟩ := hstate.stands.exists_gap hsize
  exact hgap.next t (hreader.shows.offers.reading_of_peeked hpeeked)

/-- A comment with a line feed stands between two labels, and the first of them was passed. -/
theorem Session.separated_comment :
    "a /*\n*/b".utf8ByteSize < UInt32.size ∧
    ∃ session : Session, session.Reached "a /*\n*/b" {} ∧
      session.state.Reached "a /*\n*/b" {} false ∧
      ∃ gap, session.state.Separated "a /*\n*/b" "shell" gap ∧
        (session.state.current.newlineBefore = true ↔ '\n' ∈ gap) := by
  have hsize : "a /*\n*/b".utf8ByteSize < UInt32.size := by decide
  obtain ⟨s, hs⟩ : ∃ s, ParseState.start "a /*\n*/b" {} = .ok s :=
    exists_of_isOk (by decide +kernel)
  have hkind : (ParseState.start "a /*\n*/b" {}).toOption.map (·.current.kind) =
      some .identifier := by decide +kernel
  rw [hs] at hkind
  have hne : s.current.kind ≠ .eof := by
    have hname : s.current.kind = .identifier := Option.some.inj hkind
    rw [hname]
    decide
  have hsession : Session.Reached "a /*\n*/b" {} ⟨.bare, s⟩ := .start hs
  have hfirst : s.Reached "a /*\n*/b" {} false := .start hs
  have hstate := hfirst.advance
  rw [decide_eq_false hne, Bool.or_false] at hstate
  have hreached := hsession.call (.token .advance)
  obtain ⟨-, hseparated, -⟩ := Session.separated_of_reached hsize hreached
  obtain ⟨gap, hgap, hline, -⟩ := hseparated false hstate
  exact ⟨hsize, _, hreached, hstate, gap, hgap, hline rfl⟩

end SurfaceGrammar

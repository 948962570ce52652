import SurfaceGrammar.Proofs.Grammar.Sequels
import SurfaceGrammar.Proofs.Grammar.Soundness
import SurfaceGrammar.Proofs.Parse.Later
import SurfaceGrammar.Proofs.Token.Joins

/-!
# Sources one behind the other

Two sources with a semicolon on a line of its own between them are parsed one after the other. The
statements of the first one leave nothing behind on which those of the second one depend: the depth
of open delimiters, the place in a return type, the line break before the next token and the sign
of a minus are what they are at the beginning of a source.

* `TokenStream.exists_ofSource_joined`: the tokens of two sources that are joined.
* `parse_joined`: the statements of two sources that are joined, or the error in the second one.
-/

namespace SurfaceGrammar

/-- Two sources with a semicolon on a line of its own between them. -/
def joined (source other : String) : String := source ++ "\n;\n" ++ other

/-- The tokens of the first source, the semicolon, and the tokens of the second source at later
places and on a new line. -/
theorem TokenStream.exists_ofSource_joined {source file : String} {ts : List Token} {stop : Token}
    (h : ofSource source file = ⟨ts, .ok stop⟩) (other : String) :
    ∃ semicolon behind, semicolon.kind = .semicolon ∧
      behind = ((ofSource other file).shift (source.utf8ByteSize + 3)).onNewLine ∧
      ofSource (joined source other) file = ⟨ts ++ semicolon :: behind.tokens, behind.ending⟩ := by
  have hblank : IsBlank ['\n'] := ⟨by decide, by simpa using isWhitespace_newline⟩
  obtain ⟨behind, hbehind, hstream⟩ := ofScanner_before_line (l := .mark .semicolon) h
    hblank List.mem_cons_self (Lexeme.stands_closed false ('\n' :: other.toList) rfl)
  have hscanner : (Scanner.ofSource source).before
      (['\n'] ++ ((Lexeme.mark .semicolon).text ++ '\n' :: other.toList)) =
      Scanner.ofSource (joined source other) := by
    simp only [Scanner.ofSource, Scanner.before, joined, String.toList_append, List.append_assoc]
    rfl
  rw [hscanner] at hstream
  refine ⟨_, behind, rfl, ?_, hstream⟩
  rw [hbehind, Scanner.size_ofSource]
  exact ofScanner_line other file (source.utf8ByteSize + 2)

namespace Parse

/-- What a source gives, read at its beginning and at a later place on a new line. -/
theorem statements_onNewLine {down : Descent} {count : Nat}
    (hdown : down.Agrees (.later count none)) {s s' : ParseState}
    (h : s.Meets (.later count none) s') {bound : Nat}
    (hbound : ∀ t, statements down .eof bound s ≠ .error .exhausted t) :
    (∃ body t t', statements down .eof bound s = .ok body t ∧
      statements down .eof bound s' = .ok (body.map (Stmt.mapMark (Span.shift count))) t') ∨
    ∃ e t t', statements down .eof bound s = .error (.error e) t ∧
      statements down .eof bound s' = .error (.error (e.shift count)) t' := by
  obtain _ | bound := bound
  · exact absurd rfl (hbound s)
  · by_cases heof : s.current.kind = .eof
    · have heof' : s'.current.kind = .eof := (h.kind_of_none rfl).trans heof
      exact .inl ⟨[], s, s', statements_of_close heof (by decide),
        statements_of_close heof' (by decide)⟩
    · have hagree := agree_statements hdown .eof (.inr rfl) (bound + 1) h
        fun hend => absurd hend heof
      generalize statements down .eof (bound + 1) s = r at hagree hbound
      generalize statements down .eof (bound + 1) s' = r' at hagree
      cases hagree with
      | ok value _ =>
        rw [Correspondence.statements_later value]
        exact .inl ⟨_, _, _, rfl, rfl⟩
      | error error =>
        rw [show _ = _ from error]
        exact .inr ⟨_, _, _, rfl, rfl⟩
      | lost lost =>
        rcases lost with rfl | hsome
        · exact absurd rfl (hbound _)
        · cases hsome

/-- Behind a semicolon stands the first token of another source, or the error there. -/
theorem exists_advance_onNewLine {other : String} {settings : Settings} {count : Nat}
    {u : ParseState}
    (hupcoming : u.upcoming =
      ((TokenStream.ofSource other settings.file).shift count).onNewLine)
    (hdepth : u.groupDepth = 0) (htype : u.inReturnType = false) :
    (∃ v o v', ParseState.start other settings = .ok v ∧ advance u = .ok o v' ∧
      v.Meets (.later count none) v') ∨
    ∃ e, ParseState.start other settings = .error e ∧
      advance u = .error (.error (e.shift count)) u := by
  unfold advance
  rw [hupcoming]
  obtain ⟨t, rest, t', rest', hread, hread', hfaces⟩ | ⟨e, hread, hread'⟩ :=
    Correspondence.read_onNewLine count (TokenStream.ofSource other settings.file)
  · have hv := ParseState.start_eq_ok_iff.mpr ⟨t, rest, hread, rfl⟩
    rw [hread']
    exact .inl ⟨_, _, _, hv, rfl, (ParseState.of_start hv).1, hfaces, .inr hdepth, htype⟩
  · rw [hread']
    exact .inr ⟨e, ParseState.start_eq_error_iff.mpr hread, rfl⟩

/-- A list of statements leaves the context as it is at the beginning of a source. -/
theorem context_of_statements {source : String} {settings : Settings} {s t : ParseState}
    (hs : ParseState.start source settings = .ok s) {levels bound : Nat}
    {body : List (Stmt Span)}
    (h : statements (descent .standard settings.elseRequired levels) .eof bound s = .ok body t) :
    t.groupDepth = 0 ∧ t.inReturnType = false := by
  obtain ⟨hplaced, houtside, -⟩ := ParseState.of_start hs
  obtain ⟨w, hw, -⟩ := finds_statements (sound_descent settings.elseRequired levels) (by decide) _
    hplaced h
  obtain ⟨hdepth, htype⟩ := Surroundings.mk.inj houtside
  rw [hw.groupDepth, hw.inReturnType]
  exact ⟨by simpa using hdepth, htype⟩

end Parse

/-! ## Whole sources -/

section Joined

variable {source other : String} {settings : Settings} {m : Module}

theorem statements_ne_exhausted {s : ParseState} (hs : ParseState.start source settings = .ok s)
    {levels : Nat} (hlevels : s.ahead.length < levels) (t : ParseState) :
    Parse.statements (descent .standard settings.elseRequired levels) .eof levels s ≠
      .error .exhausted t := by
  intro hexhausted
  have hparse := parse_of_levels hs hlevels
  rw [hexhausted] at hparse
  obtain ⟨e, he⟩ := exists_error_of_parse hparse
  cases he

/-- The statements of the first source, and then what is read from the semicolon on. -/
theorem exists_statements_joined (h : parse source settings = .ok m) (other : String) :
    ∃ s, ParseState.start (joined source other) settings = .ok s ∧
      ∀ levels, (TokenStream.ofSource source settings.file).tokens.length < levels →
        ∃ u bound, u.current.kind = .semicolon ∧
          u.upcoming = ((TokenStream.ofSource other settings.file).shift
            (source.utf8ByteSize + 3)).onNewLine ∧
          u.groupDepth = 0 ∧ u.inReturnType = false ∧
          Parse.statements (descent .standard settings.elseRequired levels) .eof levels s =
            ((m.body ++ ·) <$> Parse.statements
              (descent .standard settings.elseRequired levels) .eof (bound + 1)) u := by
  obtain ⟨w, stop, hstream, -⟩ := derives_of_parse h
  obtain ⟨semicolon, behind, hsemicolon, hbehind, hjoined⟩ :=
    TokenStream.exists_ofSource_joined hstream other
  obtain ⟨q, hstop, hq, hinline⟩ : ∃ q : Sequel, q.stop = semicolon ∧ q.behind = behind ∧
      q.inline = false :=
    ⟨⟨semicolon, behind, by rw [hsemicolon]; decide, false⟩, rfl, rfl, rfl⟩
  have hadmits := q.admits_of hinline (by rw [hstop, hsemicolon]; decide)
  have hstreams : (Correspondence.later 0 (some q)).Streams
      (TokenStream.ofSource source settings.file)
      (TokenStream.ofSource (joined source other) settings.file) := by
    have hbefore := Correspondence.streams_before 0 stop fun t (_ : t ∈ words w) => hadmits t
    have hsame : (words w).map (Token.shift 0) = words w := List.map_id'' Token.shift_zero _
    rwa [hsame, hstop, hq, ← hstream, ← hjoined] at hbefore
  obtain ⟨s, s', hs, hs', hmeets, -⟩ | ⟨e, e', he, -⟩ := ParseState.Meets.exists_start hstreams
  · refine ⟨s', hs', fun levels hlevels => ?_⟩
    have hahead : s.ahead.length < levels := by rwa [(ParseState.of_start hs).2.2.1]
    have hrun := h
    rw [parse_of_levels hs hahead] at hrun
    split at hrun
    · next body t hbody =>
      cases hrun
      obtain ⟨body', u, bound, hbody', hu, heof, hrest⟩ := Parse.exists_statements_of_sequel
        (agrees_descent _ settings.elseRequired levels) rfl (.inl rfl)
        (.inl (by rw [hstop]; exact hsemicolon)) hmeets hbody
      obtain ⟨hcurrent, hupcoming⟩ := hu.sequel rfl heof
      obtain ⟨hdepth, htype⟩ := Parse.context_of_statements hs hbody
      have hsame : body' = body := by
        rw [Correspondence.statements_later hbody', Span.shift_zero]
        exact List.map_id'' Stmt.mapMark_id body
      rw [hsame] at hrest
      exact ⟨u, bound, by rw [hcurrent, hstop]; exact hsemicolon,
        by rw [hupcoming, hq, hbehind], (hu.depth_eq rfl hinline).trans hdepth,
        hu.inReturnType.trans htype, hrest⟩
    · cases hrun
  · rw [parse_of_start_error he] at h
    cases h

/-- Both sources are parsed to modules, or the second one and the joined one give an error. -/
theorem parse_joined_cases (h : parse source settings = .ok m) (other : String) :
    (∃ n w, parse other settings = .ok n ∧ parse (joined source other) settings = .ok w ∧
      w.body = m.body ++ n.body.map (Stmt.mapMark (Span.shift (source.utf8ByteSize + 3)))) ∨
    ∃ e, parse other settings = .error (.error e) ∧ parse (joined source other) settings =
      .error (.error (e.shift (source.utf8ByteSize + 3))) := by
  obtain ⟨s, hs, hfirst⟩ := exists_statements_joined h other
  obtain ⟨levels, hlevels⟩ : ∃ n, (TokenStream.ofSource source settings.file).tokens.length +
      (TokenStream.ofSource other settings.file).tokens.length + s.ahead.length < n :=
    ⟨_, Nat.lt_succ_self _⟩
  obtain ⟨u, bound, hsemicolon, hupcoming, hdepth, htype, hrun⟩ := hfirst levels (by omega)
  have hlevels' : s.ahead.length < levels := by omega
  have hjoined := parse_of_levels hs hlevels'
  have hfinite := statements_ne_exhausted hs hlevels'
  rw [Parse.map_congr (Parse.statements_of_semicolon hsemicolon)] at hrun
  obtain ⟨v, o, v', hv, hadvance, hmeets⟩ | ⟨e, he, hadvance⟩ :=
    Parse.exists_advance_onNewLine hupcoming hdepth htype
  · have hlevels' : v.ahead.length < levels := by
      rw [(ParseState.of_start hv).2.2.1]
      omega
    have hother := parse_of_levels hv hlevels'
    have hfinite' := statements_ne_exhausted hv hlevels'
    rw [Parse.map_congr (Parse.bind_of_ok hadvance)] at hrun
    have hrest : ∀ t, Parse.statements (descent .standard settings.elseRequired levels) .eof bound
        v' ≠ .error .exhausted t := fun t ht =>
      hfinite t (hrun.trans (Parse.map_of_error ht))
    -- Both lists of statements are compared with as many rounds as the longer one may take.
    obtain ⟨more, hbound, hmore⟩ : ∃ n, bound ≤ n ∧ levels ≤ n :=
      ⟨_, Nat.le_max_left _ _, Nat.le_max_right _ _⟩
    have hnew := Parse.statements_of_bound hbound hrest
    have hold := Parse.statements_of_bound hmore hfinite'
    rw [← hold] at hother hfinite'
    rw [Parse.map_congr hnew.symm] at hrun
    obtain ⟨body, t, t', hbody, hbody'⟩ | ⟨e, t, t', he, he'⟩ := Parse.statements_onNewLine
      (agrees_descent _ settings.elseRequired levels) hmeets hfinite'
    · rw [hbody] at hother
      rw [hrun, Parse.map_of_ok hbody'] at hjoined
      exact .inl ⟨_, _, hother, hjoined, rfl⟩
    · rw [he] at hother
      rw [hrun, Parse.map_of_error he'] at hjoined
      exact .inr ⟨e, hother, hjoined⟩
  · rw [hrun, Parse.map_of_error (Parse.bind_of_error hadvance)] at hjoined
    exact .inr ⟨e, parse_of_start_error he, hjoined⟩

/-- Two sources with a semicolon on a line of its own between them: the statements of the first one
are followed by those of the second one, as many bytes later as stand before them, or what comes
out is the error of the second one, as many bytes later. -/
theorem parse_joined (h : parse source settings = .ok m) :
    (∀ n, parse other settings = .ok n → ∃ w, parse (joined source other) settings = .ok w ∧
      w.body = m.body ++ n.body.map (Stmt.mapMark (Span.shift (source.utf8ByteSize + 3)))) ∧
    ∀ e, parse other settings = .error (.error e) →
      parse (joined source other) settings =
        .error (.error (e.shift (source.utf8ByteSize + 3))) := by
  obtain ⟨n, w, hn, hw, hbody⟩ | ⟨e, he, herror⟩ := parse_joined_cases h other
  · refine ⟨fun n' hn' => ?_, fun e he => ?_⟩
    · cases hn.symm.trans hn'
      exact ⟨w, hw, hbody⟩
    · cases hn.symm.trans he
  · refine ⟨fun n hn => ?_, fun e' he' => ?_⟩
    · cases he.symm.trans hn
    · cases he.symm.trans he'
      exact herror

end Joined

/-- A line comment at the end of the first source ends with its line, and the number that the second
one begins with keeps its sign. -/
theorem parse_joined_sign : ∃ m n w, parse "if a b // c" {} = .ok m ∧ parse "-1" {} = .ok n ∧
    parse (joined "if a b // c" "-1") {} = .ok w ∧
    w.body = m.body ++ n.body.map (Stmt.mapMark (Span.shift 14)) := by
  obtain ⟨m, hm⟩ : ∃ m, parse "if a b // c" {} = .ok m := exists_of_isOk (by decide +kernel)
  obtain ⟨n, hn⟩ : ∃ n, parse "-1" {} = .ok n := exists_of_isOk (by decide +kernel)
  obtain ⟨w, hw, hbody⟩ := (parse_joined hm).1 n hn
  exact ⟨m, n, w, hm, hn, hw, hbody⟩

end SurfaceGrammar

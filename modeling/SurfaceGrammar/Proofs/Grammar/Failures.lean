import SurfaceGrammar.Proofs.Grammar.Direction
import SurfaceGrammar.Proofs.Grammar.Independence
import SurfaceGrammar.Proofs.Grammar.Soundness
import SurfaceGrammar.Proofs.Grammar.Tandem
import SurfaceGrammar.Proofs.Token.Faults

/-!
# Why a parse fails

The tokens of a source are read one by one while they are put together. Still a parse comes to a
fault of the lexer exactly where all tokens had been read first: the parse of a source without
faults has none, and that of a source with a fault either comes to it or fails before it.

* `TokenStream.Holds`, `Course.ofSource`: the tokens of a stream.
* `raises_of_parse`: what the error of a parse is.
* `error_of_parse`: the error of a parse next to what the lexer says of the source.
-/

namespace SurfaceGrammar

/-- The token is one of the stream or the one for its end. -/
def TokenStream.Holds (stream : TokenStream) (t : Token) : Prop :=
  t ∈ stream.tokens ∨ stream.ending = .ok t

/-- The course of the parse of a source: the tokens are those of the source, and branches are asked
for if the settings say so. -/
def Course.ofSource (source : String) (settings : Settings) : Course where
  meets := (TokenStream.ofSource source settings.file).Holds
  strict := settings.elseRequired = true

/-- A parse meets the tokens of its source. -/
theorem ParseState.begins_of_start {source : String} {settings : Settings} {s : ParseState}
    (h : ParseState.start source settings = .ok s) : s.Begins (.ofSource source settings) := by
  obtain ⟨hplaced, -, hahead, hending⟩ := ParseState.of_start h
  have hmem {t : Token} (ht : t ∈ s.ahead) :
      (TokenStream.ofSource source settings.file).Holds t :=
    .inl (hahead ▸ ht)
  refine ⟨hplaced, ?_, fun t ht => ?_, fun t ht => .inr (hending ▸ ht)⟩
  · by_cases heof : s.current.kind = .eof
    · exact .inr (hending ▸ (hplaced.atEnd heof).2)
    · exact hmem (by rw [ahead_of_ne_eof heof]; exact List.mem_cons_self)
  · by_cases heof : s.current.kind = .eof
    · rw [(hplaced.atEnd heof).1] at ht
      cases ht
    · exact hmem (by rw [ahead_of_ne_eof heof]; exact List.mem_cons_of_mem _ ht)

/-- A parse of a source only goes forward among its tokens. -/
theorem goes_of_start {source : String} {settings : Settings} {s : ParseState}
    (h : ParseState.start source settings = .ok s) :
    Goes (.ofSource source settings) s
      (Parse.wholeSource settings.file (descent .standard settings.elseRequired s.levels) s) := by
  have hstrict : Fact (settings.elseRequired = true → (Course.ofSource source settings).strict) :=
    ⟨id⟩
  exact Forward.goes s (ParseState.begins_of_start h)

/-- The error of a parse that fails. -/
def parseError? (source : String) (settings : Settings) : Option Error :=
  match parse source settings with
  | .error (.error e) => some e
  | _ => none

theorem parseError?_eq_some_iff {source : String} {settings : Settings} {e : Error} :
    parseError? source settings = some e ↔ parse source settings = .error (.error e) := by
  unfold parseError?
  split <;> simp_all

/-- What the error of a parse is: the ending of the tokens, or an error of the productions, which
stop in a state among the tokens. -/
theorem raises_of_parse {source : String} {settings : Settings} {e : Error}
    (h : parse source settings = .error (.error e)) :
    (TokenStream.ofSource source settings.file).ending = .error e ∨
    ∃ s s', ParseState.start source settings = .ok s ∧
      Parse.wholeSource settings.file (descent .standard settings.elseRequired s.levels) s =
        .error (.error e) s' ∧
      s.LeadsTo s' ∧ s'.Raises (.ofSource source settings) e := by
  cases hstart : ParseState.start source settings with
  | error e' =>
    rw [parse_of_start_error hstart] at h
    cases h
    exact .inl (TokenStream.ending_of_read (ParseState.start_eq_error_iff.mp hstart))
  | ok s =>
    have hgoes := goes_of_start hstart
    rw [parse_of_start hstart] at h
    split at h
    · cases h
    · next failure s' hresult =>
      cases h
      rw [hresult] at hgoes
      cases hgoes with
      | error leads raises => exact .inr ⟨s, s', rfl, hresult, leads, raises⟩

/-- The errors of the productions are none of the lexer. -/
theorem ParseState.Raises.isLexical {G : Course} {s : ParseState} {e : Error}
    (h : s.Raises G e) (hending : s.upcoming.ending ≠ .error e) : e.kind.isLexical = false := by
  cases h with
  | unreadable ending => exact absurd ending hending
  | unexpected expected =>
    unfold ParseState.unexpected
    split <;> rfl
  | number kind => rfl
  | lacking begins _ => rfl

/-- What stops a parse that does not come to the fault of its tokens: an error at the beginning of
one of them. -/
theorem ParseState.Raises.begins {stream : TokenStream} {G : Course} {s s' : ParseState}
    {e fault : Error} (h : s'.Raises G e) (hs : s.Begins G) (hleads : s.LeadsTo s')
    (hG : G.meets = stream.Holds) (hstream : stream.ending = .error fault)
    (hending : s.upcoming.ending = .error fault) (hne : e ≠ fault) :
    (∀ expected, e.kind ≠ .unexpectedEndOfInput expected) ∧
      ∃ t ∈ stream.tokens, e.position = t.span.start := by
  have hplace {t : Token} (ht : G.meets t) : t ∈ stream.tokens := by
    rw [hG] at ht
    obtain ht | ht := ht
    · exact ht
    · rw [hstream] at ht
      cases ht
  have hgoes := hs.leadsTo hleads
  have hcurrent : s'.current.kind ≠ .eof := by
    intro heof
    have hstop := (hleads.placed.atEnd heof).2
    rw [hleads.ending, hending] at hstop
    cases hstop
  cases h with
  | unreadable ending =>
    rw [hleads.ending, hending] at ending
    cases ending
    exact absurd rfl hne
  | unexpected expected =>
    rw [ParseState.unexpected, if_neg hcurrent]
    exact ⟨by simp, s'.current, hplace hgoes.here, rfl⟩
  | number kind => exact ⟨by simp, s'.current, hplace hgoes.here, rfl⟩
  | lacking opens _ =>
    obtain ⟨t, ht, -, hposition⟩ := opens
    exact ⟨by simp, t, hplace ht, hposition⟩

/-- A parse and the lexer agree on errors. If all tokens of a source can be read, a parse that
fails does not fail with a fault of the lexer. If they cannot, the parse fails as well: with the
fault at which the lexer stops, or with another error before it, which is none of the lexer and not
that the input ends. -/
theorem error_of_parse {source : String} (settings : Settings)
    (hsize : source.utf8ByteSize < UInt32.size) :
    (∀ tokens, tokenize source settings.file = .ok tokens →
      ∀ failure, parse source settings = .error failure →
        ∃ e, failure = .error e ∧ e.kind.isLexical = false) ∧
    ∀ fault, tokenize source settings.file = .error fault →
      ∃ e, parse source settings = .error (.error e) ∧
        (e = fault ∨ e.kind.isLexical = false ∧
          (∀ expected, e.kind ≠ .unexpectedEndOfInput expected) ∧
          e.position.offset < fault.position.offset) := by
  constructor
  · intro tokens htokens failure hfailure
    obtain ⟨us, stop, hstream, -⟩ := tokenize_eq_ok_iff.mp htokens
    obtain ⟨e, rfl⟩ := exists_error_of_parse hfailure
    refine ⟨e, rfl, ?_⟩
    obtain hending | ⟨s, s', hs, -, hleads, hraises⟩ := raises_of_parse hfailure
    · rw [hstream] at hending
      cases hending
    · refine hraises.isLexical fun hending => ?_
      rw [hleads.ending, (ParseState.of_start hs).2.2.2, hstream] at hending
      cases hending
  · intro fault hfault
    have hending : (TokenStream.ofSource source settings.file).ending = .error fault :=
      tokenize_eq_error_iff.mp hfault
    obtain ⟨failure, hfailure⟩ : ∃ failure, parse source settings = .error failure := by
      cases hparse : parse source settings with
      | error failure => exact ⟨failure, rfl⟩
      | ok m =>
        obtain ⟨w, stop, hstream, -⟩ := derives_of_parse hparse
        rw [hstream] at hending
        cases hending
    obtain ⟨e, rfl⟩ := exists_error_of_parse hfailure
    refine ⟨e, hfailure, ?_⟩
    by_cases hsame : e = fault
    · exact .inl hsame
    · obtain he | ⟨s, s', hs, -, hleads, hraises⟩ := raises_of_parse hfailure
      · rw [hending] at he
        cases he
        exact absurd rfl hsame
      · have hstart := (ParseState.of_start hs).2.2.2
        obtain ⟨hinput, t, ht, hposition⟩ := hraises.begins (ParseState.begins_of_start hs) hleads
          rfl hending (hstart.trans hending) hsame
        refine .inr ⟨hraises.isLexical ?_, hinput, ?_⟩
        · rw [hleads.ending, hstart, hending]
          exact fun heq => hsame (Except.error.inj heq).symm
        · rw [hposition]
          exact (TokenStream.fault_ofSource hsize hending).2 t ht

/-- A string without an end, behind a name that does not belong there. -/
theorem error_of_parse_unterminated :
    "(a b \"c".utf8ByteSize < UInt32.size ∧
    tokenize "(a b \"c" "shell" = .error ⟨.unterminatedLiteral '"', ⟨5, "shell"⟩⟩ ∧
    ∃ e, parse "(a b \"c" {} = .error (.error e) ∧
      (e = ⟨.unterminatedLiteral '"', ⟨5, "shell"⟩⟩ ∨ e.kind.isLexical = false ∧
        (∀ expected, e.kind ≠ .unexpectedEndOfInput expected) ∧ e.position.offset < 5) := by
  have hsize : "(a b \"c".utf8ByteSize < UInt32.size := by decide
  have hfault : tokenize "(a b \"c" "shell" =
      .error ⟨.unterminatedLiteral '"', ⟨5, "shell"⟩⟩ := by decide +kernel
  exact ⟨hsize, hfault, (error_of_parse {} hsize).2 _ hfault⟩

end SurfaceGrammar

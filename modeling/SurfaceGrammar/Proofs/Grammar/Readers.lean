import SurfaceGrammar.Proofs.Grammar.Sessions
import SurfaceGrammar.Proofs.Token.Calls

/-!
# Steps that fail

A parser holds a lexer that moves: it skips white space before it finds that there is no token, and
it keeps a token that was looked at. The state of a parse has a stream in the place of the lexer. A
reader is the parser with its lexer, and it takes the steps that read tokens in the order in which
it updates itself. Whatever its lexer went through, it answers as the state does. So a step that
fails moves nothing but the lexer, and the lexer gives the same error again.

* `TokenReader`, `TokenStep.take?`: a parser over a lexer, and its steps.
* `TokenReader.Shows`: a reader and a state that stand at the same place.
* `TokenReader.Runs`: a reader and a state that the same single steps lead to.
* `Session.failed_tokenStep`: what a failing step leaves as it was, in every session.
-/

namespace SurfaceGrammar

/-- Reading from a stream gives what is read first, and the rest. -/
theorem TokenStream.read_eq (stream : TokenStream) :
    stream.read = (stream.reading 0).map fun t => (t, stream.rest) := by
  obtain ⟨_ | ⟨t, ts⟩, ending⟩ := stream <;> rfl

/-- If a look at the next token fails, so does going on to it. -/
theorem Parse.advance_of_peek {s : ParseState} {failure : Failure}
    (h : peek s = .error failure s) : advance s = .error failure s := by
  cases hread : s.upcoming.read with
  | ok next =>
    rw [peek_eq_of_read hread] at h
    cases h
  | error e => rw [advance_of_error hread, ← h, peek_of_error hread]

/-! ## Readers -/

/-- A parser over a lexer. -/
structure TokenReader where
  lexer : Lexer
  /-- The token at which the parser stands. -/
  current : Token
  /-- The end of the token before it. -/
  lastEnd : Position
  groupDepth : Nat
  inReturnType : Bool

namespace TokenReader

/-- The reader at the first token of a source, or the error in its place. -/
def start? (source : String) (settings : Settings) : Option (Except Error TokenReader) :=
  (Lexer.ofSource source settings.file).next?.map fun (answer, lexer) =>
    answer.map fun current =>
      { lexer
        current
        lastEnd := ⟨0, settings.file⟩
        groupDepth := 0
        inReturnType := false }

/-- The error that the token is none of the expected ones. -/
def unexpected (reader : TokenReader) (expected : List TokenKind) : Error :=
  if reader.current.kind = .eof then
    ⟨.unexpectedEndOfInput expected, reader.current.span.start⟩
  else ⟨.unexpectedToken reader.current.describe expected, reader.current.span.start⟩

/-- Looks at the next token. -/
def peek? (reader : TokenReader) : Option (Except Error Token × TokenReader) :=
  reader.lexer.peek?.map fun (answer, lexer) => (answer, { reader with lexer })

/-- Goes on to the next token and returns the one that was passed. Nothing but the lexer is updated
before the next token is there. -/
def advance? (reader : TokenReader) : Option (Except Error Token × TokenReader) :=
  reader.lexer.next?.map fun
    | (.error e, lexer) => (.error e, { reader with lexer })
    | (.ok next, lexer) =>
      (.ok reader.current,
        { reader with lexer, current := next, lastEnd := reader.current.span.stop })

/-- Passes a token of a kind. -/
def expectOr? (kind : TokenKind) (expected : List TokenKind) (reader : TokenReader) :
    Option (Except Error Token × TokenReader) :=
  if reader.current.kind = kind then reader.advance?
  else some (.error (reader.unexpected expected), reader)

end TokenReader

/-- What a step gives, and the reader after it. -/
def TokenStep.take? : TokenStep → TokenReader → Option (Except Error Token × TokenReader)
  | advance, reader => reader.advance?
  | peek, reader => reader.peek?
  | expect kind, reader => reader.expectOr? kind [kind]
  | expectOr kind expected, reader => reader.expectOr? kind expected

/-! ## Readers and states -/

namespace TokenReader

/-- A reader that stands where a state stands: its lexer gives the tokens that are still to come. -/
structure Shows (reader : TokenReader) (s : ParseState) : Prop where
  current : reader.current = s.current
  lastEnd : reader.lastEnd = s.lastEnd
  groupDepth : reader.groupDepth = s.groupDepth
  inReturnType : reader.inReturnType = s.inReturnType
  offers : reader.lexer.Offers s.upcoming

/-- A reader and a state that single steps lead to, where both take the same steps. -/
inductive Runs (source : String) (settings : Settings) : TokenReader → ParseState → Prop
  | start {reader : TokenReader} {s : ParseState} (h : start? source settings = some (.ok reader))
    (hs : ParseState.start source settings = .ok s) : Runs source settings reader s
  | token {reader next : TokenReader} {s : ParseState} {answer : Except Error Token}
    (h : Runs source settings reader s) (step : TokenStep)
    (hstep : step.take? reader = some (answer, next)) :
    Runs source settings next (step.run.after s)
  | context {reader : TokenReader} {s : ParseState} (depth : Nat) (inReturnType : Bool)
    (h : Runs source settings reader s) :
    Runs source settings { reader with groupDepth := depth, inReturnType }
      { s with groupDepth := depth, inReturnType }
  | record {reader : TokenReader} {s : ParseState} (event : Event) [event.OfProduction]
    (h : Runs source settings reader s) :
    Runs source settings reader ((Parse.record event).after s)

/-- An answer that is what a step gives from a state. If it is an error, only the lexer moved. -/
inductive Answers (reader : TokenReader) (s : ParseState) (m : Parse Token) :
    Except Error Token → TokenReader → Prop
  | ok {t : Token} {s' : ParseState} {next : TokenReader} (run : m s = .ok t s')
    (shows : next.Shows s') : Answers reader s m (.ok t) next
  | error {e : Error} {lexer : Lexer} (run : m s = .error (.error e) s)
    (shows : { reader with lexer }.Shows s) : Answers reader s m (.error e) { reader with lexer }

variable {reader : TokenReader} {s : ParseState}

theorem Shows.unexpected (h : reader.Shows s) (expected : List TokenKind) :
    reader.unexpected expected = s.unexpected expected := by
  rw [TokenReader.unexpected, ParseState.unexpected, ParseState.position, h.current]

theorem Shows.exists_peek (h : reader.Shows s) :
    ∃ answer next, reader.peek? = some (answer, next) ∧
      reader.Answers s Parse.peek answer next := by
  obtain ⟨lexer, hlexer, hoffers⟩ := h.offers.exists_answer? .look
  rw [Lexer.answer?] at hlexer
  have hread := s.upcoming.read_eq
  refine ⟨s.upcoming.reading 0, { reader with lexer }, by rw [peek?, hlexer]; rfl, ?_⟩
  cases hfirst : s.upcoming.reading 0 with
  | ok t =>
    rw [hfirst] at hread
    exact .ok (Parse.peek_eq_of_read hread) { h with offers := hoffers }
  | error e =>
    rw [hfirst] at hread
    exact .error (Parse.peek_of_error hread) { h with offers := hoffers }

theorem Shows.exists_advance (h : reader.Shows s) :
    ∃ answer next, reader.advance? = some (answer, next) ∧
      reader.Answers s Parse.advance answer next := by
  obtain ⟨lexer, hlexer, hoffers⟩ := h.offers.exists_answer? .take
  rw [Lexer.answer?] at hlexer
  rw [TokenStream.after] at hoffers
  have hread := s.upcoming.read_eq
  cases hfirst : s.upcoming.reading 0 with
  | ok t =>
    rw [hfirst] at hread hlexer
    refine ⟨.ok reader.current, _, by rw [advance?, hlexer]; rfl, ?_⟩
    rw [h.current]
    exact .ok (Parse.advance_of_read hread)
      { h with current := rfl, lastEnd := rfl, offers := hoffers }
  | error e =>
    rw [TokenStream.rest_of_error hfirst] at hoffers
    rw [hfirst] at hread hlexer
    exact ⟨.error e, { reader with lexer }, by rw [advance?, hlexer]; rfl,
      .error (Parse.advance_of_error hread) { h with offers := hoffers }⟩

theorem Shows.exists_expectOr (h : reader.Shows s) (kind : TokenKind)
    (expected : List TokenKind) : ∃ answer next,
      reader.expectOr? kind expected = some (answer, next) ∧
        reader.Answers s (Parse.expectOr kind expected) answer next := by
  have hrun : Parse.expectOr kind expected s =
      if s.current.kind = kind then Parse.advance s else Parse.unexpected expected s := by
    rw [Parse.expectOr, Parse.bind_currentKind]
    split <;> rfl
  unfold expectOr?
  rw [h.current]
  by_cases hkind : s.current.kind = kind
  · rw [if_pos hkind] at hrun ⊢
    obtain ⟨answer, next, hadvance, hanswers⟩ := h.exists_advance
    refine ⟨answer, next, hadvance, ?_⟩
    cases hanswers with
    | ok run shows => exact .ok (hrun.trans run) shows
    | error run shows => exact .error (hrun.trans run) shows
  · rw [if_neg hkind] at hrun ⊢
    rw [h.unexpected]
    exact ⟨_, _, rfl, .error hrun h⟩

/-- A reader answers every step as the state does that it shows. -/
theorem Shows.exists_answers (h : reader.Shows s) (step : TokenStep) :
    ∃ answer next, step.take? reader = some (answer, next) ∧
      reader.Answers s step.run answer next := by
  cases step with
  | advance => exact h.exists_advance
  | peek => exact h.exists_peek
  | expect kind => exact h.exists_expectOr kind [kind]
  | expectOr kind expected => exact h.exists_expectOr kind expected

theorem Answers.shows_after {m : Parse Token} {answer : Except Error Token} {next : TokenReader}
    (h : reader.Answers s m answer next) : next.Shows (m.after s) := by
  cases h with
  | ok run shows => rwa [Parse.after_of_ok run]
  | error run shows => rwa [Parse.after_of_error run]

/-- A step that fails from a state is answered with the same error by every reader that shows it. -/
theorem Shows.take?_of_error (h : reader.Shows s) {step : TokenStep} {e : Error}
    (hrun : step.run s = .error (.error e) s) :
    ∃ next, step.take? reader = some (.error e, next) := by
  obtain ⟨answer, next, htake, hanswers⟩ := h.exists_answers step
  cases hanswers with
  | ok run shows =>
    rw [hrun] at run
    cases run
  | error run shows =>
    rw [hrun] at run
    cases run
    exact ⟨_, htake⟩

/-! ## Readers and states that take the same steps -/

variable {source : String} {settings : Settings}

theorem exists_start (hs : ParseState.start source settings = .ok s) :
    ∃ reader, start? source settings = some (.ok reader) ∧ reader.Shows s := by
  obtain ⟨lexer, hlexer, hoffers⟩ :=
    (Lexer.offers_ofSource source settings.file).exists_answer? .take
  rw [Lexer.answer?] at hlexer
  rw [TokenStream.after] at hoffers
  rw [ParseState.start, ParseState.ofStream, TokenStream.read_eq] at hs
  cases hfirst : (TokenStream.ofSource source settings.file).reading 0 with
  | error e =>
    rw [hfirst] at hs
    cases hs
  | ok t =>
    rw [hfirst] at hs hlexer
    cases hs
    refine ⟨_, by rw [start?, hlexer]; rfl, ?_⟩
    exact ⟨rfl, rfl, rfl, rfl, hoffers⟩

theorem Runs.shows (h : Runs source settings reader s) : reader.Shows s := by
  induction h with
  | start h hs =>
    obtain ⟨other, hother, hshows⟩ := exists_start hs
    rw [h] at hother
    cases hother
    exact hshows
  | token h step hstep ih =>
    obtain ⟨answer, next, htake, hanswers⟩ := ih.exists_answers step
    rw [hstep] at htake
    cases htake
    exact hanswers.shows_after
  | context depth inReturnType h ih => exact { ih with groupDepth := rfl, inReturnType := rfl }
  | record event h ih => exact { ih with }

/-- To every state that single steps lead to, they lead a reader. -/
theorem exists_runs {ended : Bool} (h : s.Reached source settings ended) :
    ∃ reader, Runs source settings reader s := by
  have next {reader : TokenReader} {s : ParseState} (h : Runs source settings reader s)
      (step : TokenStep) : ∃ next, Runs source settings next (step.run.after s) := by
    obtain ⟨answer, next, htake, -⟩ := h.shows.exists_answers step
    exact ⟨next, h.token step htake⟩
  induction h with
  | start hs =>
    obtain ⟨reader, hstart, -⟩ := exists_start hs
    exact ⟨reader, .start hstart hs⟩
  | advance h ih =>
    obtain ⟨reader, hreader⟩ := ih
    exact next hreader .advance
  | peek h ih =>
    obtain ⟨reader, hreader⟩ := ih
    exact next hreader .peek
  | context depth inReturnType h ih =>
    obtain ⟨reader, hreader⟩ := ih
    exact ⟨_, hreader.context depth inReturnType⟩
  | record event h ih =>
    obtain ⟨reader, hreader⟩ := ih
    exact ⟨reader, hreader.record event⟩

end TokenReader

/-! ## The main statement -/

/-- Whatever a caller did with a session, there is a reader that went the same way, and every such
reader gives what a step that reads tokens gives. If the step fails, the session with its tables is
as before, the reader is as before except for its lexer, and the step fails with the same error if
it is taken again. If a look at the next token fails, going on to it fails with the same error. -/
theorem Session.failed_tokenStep {source : String} {settings : Settings} {session : Session}
    (h : session.Reached source settings) :
    (∃ reader, TokenReader.Runs source settings reader session.state) ∧
    ∀ reader, TokenReader.Runs source settings reader session.state → ∀ step : TokenStep,
      ∃ answer next, step.take? reader = some (answer, next) ∧
        TokenReader.Runs source settings next (session.after settings (.token step)).state ∧
        (∀ t, answer = .ok t → ∃ s', step.run session.state = .ok t s') ∧
        ∀ e, answer = .error e →
          step.run session.state = .error (.error e) session.state ∧
          session.after settings (.token step) = session ∧
          next = { reader with lexer := next.lexer } ∧
          (∃ again, step.take? next = some (.error e, again)) ∧
          (step = .peek → ∃ again, TokenStep.advance.take? next = some (.error e, again)) := by
  obtain ⟨ended, hstate⟩ := h.state
  refine ⟨TokenReader.exists_runs hstate, fun reader hreader step => ?_⟩
  obtain ⟨answer, next, htake, hanswers⟩ := hreader.shows.exists_answers step
  refine ⟨answer, next, htake, hreader.token step htake, ?_, ?_⟩
  · rintro t rfl
    cases hanswers with
    | ok run shows => exact ⟨_, run⟩
  · rintro e rfl
    cases hanswers with
    | error run shows =>
      refine ⟨run, ?_, rfl, shows.take?_of_error run, ?_⟩
      · rw [Session.after, Parse.after_of_error run]
      · rintro rfl
        exact shows.take?_of_error (Parse.advance_of_peek run)

/-- A literal that is not closed stands behind a label and a space. The error is given when the
parser looks at it, again when it looks once more, and when it goes on to it. -/
theorem Session.failed_tokenStep_unterminated :
    ∃ session : Session, session.Reached "a \"b" {} ∧
      ∃ reader, TokenReader.Runs "a \"b" {} reader session.state ∧
        ∃ next, TokenStep.peek.take? reader =
            some (.error ⟨.unterminatedLiteral '"', ⟨2, "shell"⟩⟩, next) ∧
          next = { reader with lexer := next.lexer } ∧
          (∃ again, TokenStep.peek.take? next =
            some (.error ⟨.unterminatedLiteral '"', ⟨2, "shell"⟩⟩, again)) ∧
          ∃ again, TokenStep.advance.take? next =
            some (.error ⟨.unterminatedLiteral '"', ⟨2, "shell"⟩⟩, again) := by
  obtain ⟨s, hs⟩ : ∃ s, ParseState.start "a \"b" {} = .ok s := exists_of_isOk (by decide +kernel)
  have hlook : ((ParseState.start "a \"b" {}).toOption.bind fun s =>
      match Parse.peek s with
      | .error (.error e) _ => some e
      | _ => none) = some ⟨.unterminatedLiteral '"', ⟨2, "shell"⟩⟩ := by decide +kernel
  have hsession : Session.Reached "a \"b" {} ⟨.bare, s⟩ := .start hs
  obtain ⟨⟨reader, hreader⟩, hsteps⟩ := Session.failed_tokenStep hsession
  obtain ⟨answer, next, htake, -, hok, herror⟩ := hsteps reader hreader .peek
  rw [hs] at hlook
  change (match Parse.peek s with
    | .error (.error e) _ => some e
    | _ => none) = _ at hlook
  cases answer with
  | ok t =>
    obtain ⟨s', hs'⟩ := hok t rfl
    change Parse.peek s = _ at hs'
    rw [hs'] at hlook
    cases hlook
  | error e =>
    obtain ⟨hrun, -, hnext, hagain, hadvance⟩ := herror e rfl
    change Parse.peek s = _ at hrun
    rw [hrun] at hlook
    cases hlook
    exact ⟨_, hsession, reader, hreader, next, htake, hnext, hagain, hadvance rfl⟩

end SurfaceGrammar

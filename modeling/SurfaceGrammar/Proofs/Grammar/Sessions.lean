import SurfaceGrammar.Proofs.Grammar.Composition

/-!
# Sessions

A caller may steer a parse by hand: it goes on to tokens and looks at them, changes the context and
the tables, and starts productions, in any order and whether they succeed or fail. Whatever it does,
the state is reached by single steps, since productions do nothing else.

* `TokenStep`, `Production`, `Session.Call`: what a caller can do.
* `Session.after`: a session after a call.
* `Session.Reached`: the sessions that calls lead to.
* `ParseState.Reached`: the states that single steps lead to, and whether one of these steps went
  past the end of the source.
* `Session.Reached.state`: calls lead to nothing but such states.
-/

namespace SurfaceGrammar

/-! ## Calls -/

/-- The steps that look at the next token or go on to it. -/
inductive TokenStep where
  | advance
  | peek
  | expect (kind : TokenKind)
  | expectOr (kind : TokenKind) (expected : List TokenKind)

/-- A step as a step of a parse. -/
def TokenStep.run : TokenStep → Parse Token
  | advance => Parse.advance
  | peek => Parse.peek
  | expect kind => Parse.expect kind
  | expectOr kind expected => Parse.expectOr kind expected

/-- The productions that a caller can start. What stands between delimiters is anything that keeps
what every single step keeps. -/
inductive Production : Type 1 where
  | expr (power : Power)
  | primary (rule : PrimaryRule)
  | following (rule : InfixRule) (left : Expr Span) (power : Power)
  | delimited {β : Type} (close : TokenKind) (element : Descent → Parse β)
    (steady : ∀ rules elseRequired levels {I : ParseState → Prop} [Stable I],
      (element (descent rules elseRequired levels)).Keeps I)
  | typeDefinition
  | statement (close : TokenKind)
  | statements (close : TokenKind)
  | blockBody

/-- The state that a production reaches, whether it succeeds or fails. -/
def Production.after (rules : Rules) (settings : Settings) (s : ParseState) :
    Production → ParseState
  | expr power => (Parse.bounded rules settings fun down => down.expr power).after s
  | primary rule => (Parse.bounded rules settings fun down => Parse.primary down rule).after s
  | following rule left power =>
    (Parse.bounded rules settings fun down => Parse.following down rule left power).after s
  | delimited close element _ =>
    (Parse.bounded rules settings fun down =>
      Parse.delimited down.bound close (element down)).after s
  | typeDefinition => (Parse.bounded rules settings Parse.typeDefinition).after s
  | statement close => (Parse.bounded rules settings fun down => Parse.statement down close).after s
  | statements close =>
    (Parse.bounded rules settings fun down => Parse.statements down close down.bound).after s
  | blockBody => (Parse.bounded rules settings Parse.blockBody).after s

/-- The state of a parse with the tables of its grammar. -/
structure Session where
  rules : Rules
  state : ParseState

namespace Session

/-- What a caller can do. -/
inductive Call : Type 1 where
  | token (step : TokenStep)
  | enterGroup
  | exitGroup
  | enterBlock
  | exitBlock (depth : Nat)
  | setInReturnType (value : Bool)
  /-- Puts the entries of the language in front of the tables. -/
  | addStandard
  | setPrimary (kind : TokenKind) (rule : PrimaryRule)
  | setInfix (kind : TokenKind) (power : Power) (rule : InfixRule)
  | production (production : Production)

/-- The session after a call, whether the call succeeds or fails. -/
def after (settings : Settings) (session : Session) : Call → Session
  | .token step => { session with state := step.run.after session.state }
  | .enterGroup => { session with state := Parse.enterGroup.after session.state }
  | .exitGroup => { session with state := Parse.exitGroup.after session.state }
  | .enterBlock => { session with state := Parse.enterBlock.after session.state }
  | .exitBlock depth => { session with state := (Parse.exitBlock depth).after session.state }
  | .setInReturnType value =>
    { session with state := (Parse.setInReturnType value).after session.state }
  | .addStandard => { session with rules := session.rules.withStandard }
  | .setPrimary kind rule => { session with rules := session.rules.setPrimary kind rule }
  | .setInfix kind power rule => { session with rules := session.rules.setInfix kind power rule }
  | .production production =>
    { session with state := production.after session.rules settings session.state }

/-- The sessions that calls lead to, from the first token of a source and empty tables on. -/
inductive Reached (source : String) (settings : Settings) : Session → Prop
  | start {s : ParseState} (h : ParseState.start source settings = .ok s) :
    Reached source settings ⟨.bare, s⟩
  | call {session : Session} (h : Reached source settings session) (call : Call) :
    Reached source settings (session.after settings call)

end Session

/-! ## Single steps -/

namespace Parse

variable {s : ParseState} {t : Token} {rest : TokenStream} {e : Error}

theorem advance_of_read (h : s.upcoming.read = .ok (t, rest)) :
    advance s = .ok s.current
      { s with
        upcoming := rest
        peeked := false
        current := t
        lastEnd := s.current.span.stop
        events := if s.peeked then s.events else s.events ++ ParseState.lexed t } := by
  unfold advance
  rw [h]

theorem advance_of_error (h : s.upcoming.read = .error e) :
    advance s = .error (.error e) s := by
  unfold advance
  rw [h]

theorem peek_eq_of_read (h : s.upcoming.read = .ok (t, rest)) :
    peek s = .ok t
      { s with
        peeked := true
        events := if s.peeked then s.events else s.events ++ ParseState.lexed t } := by
  unfold peek
  rw [h]
  obtain ⟨upcoming, peeked, current, lastEnd, depth, returnType, events⟩ := s
  cases peeked <;> rfl

theorem peek_of_error (h : s.upcoming.read = .error e) : peek s = .error (.error e) s := by
  unfold peek
  rw [h]

/-- A look at the next token changes nothing but what is known of it. -/
theorem after_peek (s : ParseState) :
    ∃ peeked events, peek.after s = { s with peeked, events } := by
  cases hread : s.upcoming.read with
  | error e => exact ⟨s.peeked, s.events, after_of_error (peek_of_error hread)⟩
  | ok next => exact ⟨_, _, after_of_ok (peek_eq_of_read hread)⟩

end Parse

namespace ParseState

/-- The states that single steps lead to, and whether one of these steps went past the token for the
end of the source. -/
inductive Reached (source : String) (settings : Settings) : Bool → ParseState → Prop
  | start {s : ParseState} (h : ParseState.start source settings = .ok s) :
    Reached source settings false s
  | advance {ended : Bool} {s : ParseState} (h : Reached source settings ended s) :
    Reached source settings (ended || s.current.kind = .eof) (Parse.advance.after s)
  | peek {ended : Bool} {s : ParseState} (h : Reached source settings ended s) :
    Reached source settings ended (Parse.peek.after s)
  | context {ended : Bool} {s : ParseState} (depth : Nat) (inReturnType : Bool)
    (h : Reached source settings ended s) :
    Reached source settings ended { s with groupDepth := depth, inReturnType }
  | record {ended : Bool} {s : ParseState} (event : Event) [event.OfProduction]
    (h : Reached source settings ended s) :
    Reached source settings ended ((Parse.record event).after s)

variable {source : String} {settings : Settings} {s s' : ParseState}

/-- Every single step leads to a state that single steps lead to. -/
instance stable_reached (source : String) (settings : Settings) :
    Stable fun s => ∃ ended, Reached source settings ended s where
  context _ depth inReturnType := fun ⟨ended, h⟩ => ⟨ended, h.context depth inReturnType⟩
  record event _ := fun _ ⟨ended, h⟩ => ⟨ended, h.record event⟩
  advance := fun _ ⟨_, h⟩ => ⟨_, h.advance⟩
  peek := fun _ ⟨ended, h⟩ => ⟨ended, h.peek⟩

/-- The token for the end still stands only at the end when the next token was read. -/
theorem Placed.read {t : Token} {rest : TokenStream} (hs : s.Placed)
    (hread : s.upcoming.read = .ok (t, rest)) (hcurrent : s'.current = t)
    (hupcoming : s'.upcoming = rest) : s'.Placed := by
  subst hcurrent hupcoming
  obtain ⟨ts, hts, hrest⟩ | ⟨hts, hstop, hrest⟩ := TokenStream.ok_of_read hread
  · have hproper := hs.upcoming
    rw [hts] at hproper
    have hne := (hproper s'.current List.mem_cons_self).ne_eof
    refine ⟨fun heof => absurd heof hne, ?_, ?_, fun _ => hproper _ List.mem_cons_self⟩
    · rw [hrest]
      exact hs.ending
    · rw [hrest]
      exact fun u hu => hproper u (List.mem_cons_of_mem _ hu)
  · have heof := hs.ending _ hstop
    rw [← hrest] at hts hstop
    refine ⟨fun _ => ⟨hts, hstop⟩, ?_, ?_, fun hne => absurd heof hne⟩
    · rw [hrest]
      exact hs.ending
    · rw [hrest]
      exact hs.upcoming

/-- The token for the end stands only at the end of every state that is reached. -/
theorem Reached.placed {ended : Bool} (h : s.Reached source settings ended) : s.Placed := by
  induction h with
  | start h => exact (of_start h).1
  | @advance ended s h ih =>
    cases hread : s.upcoming.read with
    | ok next =>
      rw [Parse.after_of_ok (Parse.advance_of_read hread)]
      exact ih.read hread rfl rfl
    | error e =>
      rw [Parse.after_of_error (Parse.advance_of_error hread)]
      exact ih
  | @peek ended s h ih =>
    obtain ⟨peeked, events, hpeek⟩ := Parse.after_peek s
    rw [hpeek]
    exact ih.congr rfl rfl
  | context depth inReturnType h ih => exact ih.congr rfl rfl
  | record event h ih => exact ih.congr rfl rfl

end ParseState

/-! ## Calls are single steps -/

section Steps

variable {I : ParseState → Prop} [hI : Stable I] {s : ParseState}

instance TokenStep.obeys {step : TokenStep} : Obeys (Keeping I) step.run := by
  cases step <;> (unfold run; infer_instance)

/-- What every single step keeps is kept by a production, at every number of levels. -/
theorem Production.keeps (rules : Rules) (settings : Settings) (production : Production)
    (hs : I s) : I (production.after rules settings s) := by
  have keeps {β : Type} (m : Descent → Parse β)
      [h : Obeys (Keeping I) (m (descent rules settings.elseRequired s.levels))] :
      I ((Parse.bounded rules settings m).after s) :=
    h.holds s hs
  cases production with
  | delimited close element steady =>
    have helement : Obeys (Keeping I) (element (descent rules settings.elseRequired s.levels)) :=
      ⟨steady rules settings.elseRequired s.levels⟩
    exact keeps fun down => Parse.delimited down.bound close (element down)
  | _ => exact keeps _

theorem Session.after_keeps (settings : Settings) {session : Session} (call : Session.Call)
    (hs : I session.state) : I (session.after settings call).state := by
  cases call with
  | token step => exact Parse.keeps (m := step.run) _ hs
  | enterGroup => exact Parse.keeps (m := Parse.enterGroup) _ hs
  | exitGroup => exact Parse.keeps (m := Parse.exitGroup) _ hs
  | enterBlock => exact Parse.keeps (m := Parse.enterBlock) _ hs
  | exitBlock depth => exact hI.context _ depth _ hs
  | setInReturnType value => exact Parse.keeps (m := Parse.setInReturnType value) _ hs
  | addStandard | setPrimary | setInfix => exact hs
  | production production => exact production.keeps session.rules settings hs

/-- Whatever a caller does, single steps lead to the state. -/
theorem Session.Reached.state {source : String} {settings : Settings} {session : Session}
    (h : session.Reached source settings) :
    ∃ ended, session.state.Reached source settings ended := by
  induction h with
  | start h => exact ⟨false, .start h⟩
  | call h call ih =>
    exact after_keeps (I := fun s => ∃ ended, s.Reached source settings ended) settings call ih

end Steps

end SurfaceGrammar

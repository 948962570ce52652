import SurfaceGrammar.Parse.Expression

/-!
# Parsing a source

The productions are tied together for a number of levels, of which a source with few tokens
needs few: every level passes a token before it goes down to the next.

* `descent`: the productions, tied together for a number of levels.
* `Parse.bounded`: a production with as many levels as the tokens that are left can need.
* `parse`: the module that a source spells, or the first error.
* `parseRecorded`: the same with the record of the parse.
-/

namespace SurfaceGrammar

/-- The calls of productions that go down by at most a number of levels. -/
def descent (rules : Rules) (elseRequired : Bool) (levels : Nat) (watch : Watch := .idle) :
    Descent watch :=
  match levels with
  | 0 => Descent.bottom rules elseRequired watch
  | levels + 1 =>
    { rules
      elseRequired
      bound := levels + 1
      expr := fun power => Parse.expr (descent rules elseRequired levels watch) power
      statementExpr := fun valueRequired =>
        Parse.statementExpr (descent rules elseRequired levels watch) valueRequired }

/-- A number of levels that is never reached from the state with the rules of the
language. -/
def ParseState.levels (state : ParseState) : Nat :=
  2 * state.upcoming.tokens.length + 4

namespace Parse

/-- A production with as many levels as the tokens that are left can need. -/
def bounded {β : Type} (rules : Rules) (settings : Settings) (production : Descent → Parse β) :
    Parse β := fun state =>
  production (descent rules settings.elseRequired state.levels) state

/-- The statements of a whole source. -/
def wholeSource {watch : Watch} (file : String) (down : Descent watch) : Parse Module := do
  let body ← statements down .eof down.bound
  let stop := (← get).position
  record (.finished body.length file)
  return { body, span := ⟨⟨0, file⟩, stop⟩ }

end Parse

/-- The module that a source spells, or the first error, with the record of the parse. -/
def parseRecorded (source : String) (settings : Settings) (watch : Watch := .idle) :
    Except Failure Module × Array Event :=
  match ParseState.start source settings with
  | .error error => (.error (.error error), #[])
  | .ok state =>
    match Parse.wholeSource settings.file
      (descent .standard settings.elseRequired state.levels watch) state with
    | .ok whole state => (.ok whole, state.events)
    | .error failure state => (.error failure, state.events)

/-- The module that a source spells, or the first error. -/
def parse (source : String) (settings : Settings) : Except Failure Module :=
  (parseRecorded source settings).1

end SurfaceGrammar

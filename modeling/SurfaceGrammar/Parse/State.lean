import SurfaceGrammar.Parse.Event
import SurfaceGrammar.Parse.Rules
import SurfaceGrammar.Token.Stream

/-!
# The state of a parse

A parse stands at a token, sees the one after it on demand, and knows in which context the
token stands. A step changes the state and may fail; a failed step leaves the state that it
had reached.

* `ParseState`: the state, and `Parse`: the steps.
* `ParseState.start`: the state at the first token of a source.
* `Parse.advance`, `Parse.peek`, `Parse.expect`: the steps that every production is made of.
* `ParseState.atLineBreak`: whether a line break ends the expression before the token.
-/

namespace SurfaceGrammar

/-- Where a parse stands. -/
structure ParseState where
  /-- The tokens after the current one. -/
  upcoming : TokenStream
  /-- Whether the first of them was looked at. -/
  peeked : Bool
  /-- The token at which the parse stands. -/
  current : Token
  /-- The end of the token before it. -/
  lastEnd : Position
  /-- The number of open delimiters inside which line breaks mean nothing. -/
  groupDepth : Nat
  /-- Whether the parse is inside the return type of a function, where an opening curly
  bracket begins the body of the function. -/
  inReturnType : Bool
  /-- What was recorded, the oldest first. -/
  events : Array Event

/-- Why a step did not succeed. -/
inductive Failure where
  | error (error : Error)
  /-- The bound on the number of nested productions was reached. -/
  | exhausted
deriving DecidableEq, Inhabited

/-- A step of a parse. -/
abbrev Parse := EStateM Failure ParseState

namespace ParseState

/-- The record of reading a token. The end of a source is not recorded. -/
def lexed (token : Token) : Array Event :=
  if token.kind = .eof then #[] else #[.lexed token]

/-- The state at the first token of a source, with the tokens of the source. -/
def ofStream (stream : TokenStream) (file : String) : Except Error ParseState :=
  stream.read.map fun (current, upcoming) =>
    { upcoming
      peeked := false
      current
      lastEnd := ⟨0, file⟩
      groupDepth := 0
      inReturnType := false
      events := lexed current }

/-- The state at the first token of a source. -/
def start (source : String) (settings : Settings) : Except Error ParseState :=
  ofStream (TokenStream.ofSource source settings.file) settings.file

/-- Whether the token is not the one for the end of the source. -/
def hasTokens (state : ParseState) : Bool :=
  state.current.kind ≠ .eof

/-- Whether a line break before the token ends the expression before it. -/
def atLineBreak (state : ParseState) : Bool :=
  state.groupDepth = 0 && state.current.newlineBefore

/-- Where the token begins. -/
def position (state : ParseState) : Position :=
  state.current.span.start

/-- The span from a position to the end of the last token that was passed. -/
def spanFrom (state : ParseState) (start : Position) : Span :=
  ⟨start, state.lastEnd⟩

/-- The error that the token is none of the expected ones. -/
def unexpected (state : ParseState) (expected : List TokenKind) : Error :=
  if state.current.kind = .eof then ⟨.unexpectedEndOfInput expected, state.position⟩
  else ⟨.unexpectedToken state.current.describe expected, state.position⟩

end ParseState

namespace Parse

/-! ## Tokens -/

/-- Fails with an error. -/
def fail {β : Type} (error : Error) : Parse β :=
  throw (.error error)

/-- Records an event. -/
def record (event : Event) : Parse Unit :=
  modify fun state => { state with events := state.events.push event }

/-- The token at which the parse stands. -/
def current : Parse Token :=
  return (← get).current

/-- The kind of the token at which the parse stands. -/
def currentKind : Parse TokenKind :=
  return (← get).current.kind

/-- Fails because the token is none of the expected ones. -/
def unexpected {β : Type} (expected : List TokenKind) : Parse β := do
  fail ((← get).unexpected expected)

/-- The token after the current one. -/
def peek : Parse Token := fun state =>
  match state.upcoming.read with
  | .error error => .error (.error error) state
  | .ok (token, _) =>
    if state.peeked then .ok token state
    else .ok token { state with peeked := true, events := state.events ++ ParseState.lexed token }

/-- Goes on to the next token and returns the one that was passed. -/
def advance : Parse Token := fun state =>
  match state.upcoming.read with
  | .error error => .error (.error error) state
  | .ok (token, upcoming) =>
    let events :=
      if state.peeked then state.events else state.events ++ ParseState.lexed token
    .ok state.current
      { state with
        upcoming
        peeked := false
        current := token
        lastEnd := state.current.span.stop
        events }

/-- Passes a token of a kind. The kinds that are reported as expected are given. -/
def expectOr (kind : TokenKind) (expected : List TokenKind) : Parse Token := do
  if (← currentKind) = kind then advance else unexpected expected

/-- Passes a token of a kind. -/
def expect (kind : TokenKind) : Parse Token :=
  expectOr kind [kind]

/-- Whether the parse stands at a token of the kind. -/
def standsAt (kind : TokenKind) : Parse Bool :=
  return (← currentKind) = kind

/-- Whether a line break ends the expression that was read last. -/
def atLineBreak : Parse Bool :=
  return (← get).atLineBreak

/-- The span from a position to the end of the last token that was passed. -/
def spanFrom (start : Position) : Parse Span :=
  return (← get).spanFrom start

/-! ## Context -/

/-- Enters delimiters inside which line breaks mean nothing. -/
def enterGroup : Parse Unit :=
  modify fun state => { state with groupDepth := state.groupDepth + 1 }

/-- Leaves such delimiters. -/
def exitGroup : Parse Unit :=
  modify fun state => { state with groupDepth := state.groupDepth - 1 }

/-- Enters a block of statements, in which line breaks mean something. Returns the depth
that the parse goes back to after the block. -/
def enterBlock : Parse Nat :=
  modifyGet fun state => (state.groupDepth, { state with groupDepth := 0 })

/-- Leaves a block of statements for a depth. -/
def exitBlock (depth : Nat) : Parse Unit :=
  modify fun state => { state with groupDepth := depth }

/-- Enters or leaves the return type of a function. Returns whether the parse was inside of
one. -/
def setInReturnType (value : Bool) : Parse Bool :=
  modifyGet fun state => (state.inReturnType, { state with inReturnType := value })

/-- Takes a step and then another one, which is also taken if the first fails. -/
def andFinally {β : Type} (step : Parse β) (after : Parse Unit) : Parse β := fun state =>
  match step state with
  | .ok value state =>
    match after state with
    | .ok () state => .ok value state
    | .error failure state => .error failure state
  | .error failure state =>
    match after state with
    | .ok () state => .error failure state
    | .error _ state => .error failure state

end Parse

end SurfaceGrammar

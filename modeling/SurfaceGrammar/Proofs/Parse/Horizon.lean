import SurfaceGrammar.Proofs.Parse.Composed

/-!
# Parses that see no further than a token

Two parses have the same tokens ahead of them up to a horizon: one token more is the same in both,
which may be looked at, and what is read behind that differs. As long as the first parse has not
passed the last token before the horizon, the second one is in the same state and has the same
results. This holds of the single steps and of everything that is put together from them.

* `Horizon`: what two parses read behind their common tokens.
* `Horizon.Past`: a place behind the common tokens.
* `ParseState.Shares`: the same state, with the common tokens ahead.
* `Sight`: results of two parses up to the horizon.
* `Nearsighted`: the property of a step to have such results, wherever it begins.
-/

namespace SurfaceGrammar

/-! ## Streams -/

/-- What two parses read behind their common tokens: the next token is the same. -/
structure Horizon where
  first : TokenStream
  second : TokenStream
  next : Token
  read_first : ∃ rest, first.read = .ok (next, rest)
  read_second : ∃ rest, second.read = .ok (next, rest)
  /-- The token for the end stands only at the end. -/
  ending : ∀ t, first.ending = .ok t → t.kind = .eof

namespace Horizon

variable {H : Horizon} {t u : Token} {stream rest : TokenStream}

/-- Where the first parse stands at a token in front of a stream, it has passed the last of the
common tokens. -/
def Past (H : Horizon) (t : Token) (stream : TokenStream) : Prop :=
  stream.tokens.length < H.first.tokens.length ∨
    t.kind = .eof ∧ stream = ⟨[], H.first.ending⟩

/-- Behind the common tokens a parse does not come back to them. -/
theorem Past.read (h : H.Past t stream) (hread : stream.read = .ok (u, rest)) : H.Past u rest := by
  obtain ⟨ts, hts, rfl⟩ | ⟨hts, hending, rfl⟩ := TokenStream.ok_of_read hread
  · obtain hlt | ⟨-, rfl⟩ := h
    · rw [hts] at hlt
      exact .inl (Nat.lt_of_succ_lt hlt)
    · cases hts
  · obtain hlt | ⟨-, rfl⟩ := h
    · exact .inl hlt
    · exact .inr ⟨H.ending u hending, rfl⟩

/-- The token that is the same in both parses lies behind the common ones. -/
theorem past_next (hread : H.first.read = .ok (H.next, rest)) : H.Past H.next rest := by
  obtain ⟨ts, hts, rfl⟩ | ⟨hts, hending, rfl⟩ := TokenStream.ok_of_read hread
  · refine .inl ?_
    rw [hts]
    exact Nat.lt_succ_self _
  · refine .inr ⟨H.ending _ hending, ?_⟩
    rw [← hts]

end Horizon

/-! ## States -/

namespace ParseState

/-- The states are the same, with the same tokens ahead up to the horizon. -/
structure Shares (H : Horizon) (s s' : ParseState) : Prop where
  upcoming : ∃ ts, s.upcoming = ⟨ts ++ H.first.tokens, H.first.ending⟩ ∧
    s'.upcoming = ⟨ts ++ H.second.tokens, H.second.ending⟩
  same : s' = { s with upcoming := s'.upcoming }

namespace Shares

variable {H : Horizon} {s s' : ParseState}

theorem current (h : s.Shares H s') : s'.current = s.current := by rw [h.same]

theorem peeked (h : s.Shares H s') : s'.peeked = s.peeked := by rw [h.same]

theorem events (h : s.Shares H s') : s'.events = s.events := by rw [h.same]

theorem unexpected (h : s.Shares H s') (expected : List TokenKind) :
    s'.unexpected expected = s.unexpected expected := by rw [h.same]; rfl

/-- What is read next is the same, and lies in front of the horizon or behind the common tokens. -/
theorem read (h : s.Shares H s') : ∃ u rest rest', s.upcoming.read = .ok (u, rest) ∧
    s'.upcoming.read = .ok (u, rest') ∧
    ((∃ ts, rest = ⟨ts ++ H.first.tokens, H.first.ending⟩ ∧
      rest' = ⟨ts ++ H.second.tokens, H.second.ending⟩) ∨ H.Past u rest) := by
  obtain ⟨ts, hs, hs'⟩ := h.upcoming
  rw [hs, hs']
  cases ts with
  | cons u ts => exact ⟨u, _, _, rfl, rfl, .inl ⟨ts, rfl, rfl⟩⟩
  | nil =>
    obtain ⟨rest, hread⟩ := H.read_first
    obtain ⟨rest', hread'⟩ := H.read_second
    exact ⟨H.next, rest, rest', hread, hread', .inr (Horizon.past_next hread)⟩

end Shares

end ParseState

/-! ## Results -/

/-- A step of the first parse ended behind the common tokens. -/
def Horizon.Passed {β : Type} (H : Horizon) : EStateM.Result Failure ParseState β → Prop
  | .ok _ s | .error _ s => H.Past s.current s.upcoming

/-- Results of two parses: the same in front of the horizon, or the first one is behind it. -/
inductive Sight {β : Type} (H : Horizon) :
    EStateM.Result Failure ParseState β → EStateM.Result Failure ParseState β → Prop
  | ok {b : β} {s s' : ParseState} (shares : s.Shares H s') : Sight H (.ok b s) (.ok b s')
  | error {failure : Failure} {s s' : ParseState} (shares : s.Shares H s') :
    Sight H (.error failure s) (.error failure s')
  | passed {r r' : EStateM.Result Failure ParseState β} (passed : H.Passed r) : Sight H r r'

/-- Wherever the step starts, it does the same in two parses up to the horizon, and behind the
horizon it does not come back. -/
structure SeesTo {β : Type} (H : Horizon) (m : Parse β) : Prop where
  passed : ∀ s : ParseState, H.Past s.current s.upcoming → H.Passed (m s)
  sight : ∀ s s' : ParseState, s.Shares H s' → Sight H (m s) (m s')

/-- The property of a step to see no further than the horizon. -/
def Nearsighted (H : Horizon) : Property := fun _ m => SeesTo H m

namespace SeesTo

variable {H : Horizon} {β γ : Type}

/-- A step that leaves the tokens as they are and does not depend on what is read next. -/
theorem of_same {m : Parse β} (f : ParseState → β) (g : ParseState → ParseState)
    (hm : ∀ s upcoming, m { s with upcoming } = .ok (f s) { g s with upcoming })
    (hcurrent : ∀ s, (g s).current = s.current) : SeesTo H m where
  passed s hs := by
    rw [hm s s.upcoming]
    change H.Past (g s).current s.upcoming
    rwa [hcurrent]
  sight s s' h := by
    rw [h.same, hm s s.upcoming, hm s s'.upcoming]
    exact .ok ⟨h.upcoming, rfl⟩

theorem throw (failure : Failure) : SeesTo H (throw failure : Parse β) where
  passed _ hs := hs
  sight _ _ h := .error h

theorem unexpected (expected : List TokenKind) :
    SeesTo H (Parse.unexpected expected : Parse β) where
  passed _ hs := hs
  sight s s' h := by
    change Sight H (.error (.error (s.unexpected expected)) s)
      (.error (.error (s'.unexpected expected)) s')
    rw [h.unexpected]
    exact .error h

theorem bind {m : Parse β} {f : β → Parse γ} (hm : SeesTo H m) (hf : ∀ b, SeesTo H (f b)) :
    SeesTo H (m >>= f) where
  passed s hs := by
    have hfirst := hm.passed s hs
    change H.Passed (EStateM.bind m f s)
    unfold EStateM.bind
    split
    · next b t hmt =>
      rw [hmt] at hfirst
      exact (hf b).passed t hfirst
    · next e t hmt =>
      rw [hmt] at hfirst
      exact hfirst
  sight s s' h := by
    have hfirst := hm.sight s s' h
    change Sight H (EStateM.bind m f s) (EStateM.bind m f s')
    unfold EStateM.bind
    generalize m s = r at hfirst
    generalize m s' = r' at hfirst
    cases hfirst with
    | ok shares => exact (hf _).sight _ _ shares
    | error shares => exact .error shares
    | passed hpassed =>
      refine .passed ?_
      cases r with
      | ok b t => exact (hf b).passed t hpassed
      | error e t => exact hpassed

/-- A step that goes on with what it knows of the state, but not with the tokens ahead. -/
theorem look {f : ParseState → Parse β}
    (hsame : ∀ s upcoming peeked events, f { s with upcoming, peeked, events } = f s)
    (hf : ∀ s, SeesTo H (f s)) : SeesTo H (MonadState.get >>= f) where
  passed s hs := (hf s).passed s hs
  sight s s' h := by
    have hlook : f s' = f s := by rw [h.same, hsame s s'.upcoming s.peeked s.events]
    change Sight H (f s s) (f s' s')
    rw [hlook]
    exact (hf s).sight s s' h

/-- The token after the current one is the same in both parses, even behind the common ones. -/
theorem peek : SeesTo H Parse.peek where
  passed s hs := by
    unfold Parse.peek
    split
    · exact hs
    · split <;> exact hs
  sight s s' h := by
    obtain ⟨u, rest, rest', hread, hread', -⟩ := h.read
    unfold Parse.peek
    rw [hread, hread']
    dsimp only
    rw [h.peeked, h.events]
    split
    · exact .ok h
    · exact .ok ⟨h.upcoming, by rw [h.same]⟩

theorem advance : SeesTo H Parse.advance where
  passed s hs := by
    unfold Parse.advance
    split
    · exact hs
    · next u rest hread => exact hs.read hread
  sight s s' h := by
    obtain ⟨u, rest, rest', hread, hread', hplace⟩ := h.read
    unfold Parse.advance
    rw [hread, hread']
    dsimp only
    obtain hupcoming | hpast := hplace
    · rw [h.current, h.peeked, h.events]
      exact .ok ⟨hupcoming, by rw [h.same]⟩
    · exact .passed hpast

theorem record (event : Event) : SeesTo H (Parse.record event) :=
  of_same (fun _ => ()) (fun s => { s with events := s.events.push event }) (fun _ _ => rfl)
    fun _ => rfl

/-- A step after which a block is left. -/
theorem exitBlock {m : Parse β} (hm : SeesTo H m) (depth : Nat) :
    SeesTo H (Parse.andFinally m (Parse.exitBlock depth)) where
  passed s hs := by
    have hfirst := hm.passed s hs
    unfold Parse.andFinally
    cases hr : m s with
    | ok b t =>
      rw [hr] at hfirst
      exact hfirst
    | error failure t =>
      rw [hr] at hfirst
      exact hfirst
  sight s s' h := by
    have hfirst := hm.sight s s' h
    unfold Parse.andFinally
    generalize m s = r at hfirst
    generalize m s' = r' at hfirst
    cases hfirst with
    | ok shares => exact .ok ⟨shares.upcoming, by rw [shares.same]⟩
    | error shares => exact .error ⟨shares.upcoming, by rw [shares.same]⟩
    | passed hpassed =>
      refine .passed ?_
      cases r with
      | ok b t => exact hpassed
      | error failure t => exact hpassed

end SeesTo

namespace Nearsighted

variable {H : Horizon}

instance : Stepwise (Nearsighted H) where
  pure _ := ⟨fun _ hs => hs, fun _ _ h => .ok h⟩
  exhausted := .throw .exhausted
  unexpected := .unexpected
  bind := .bind
  look := .look
  record event := .record event
  advance := .advance
  peek := .peek
  enterGroup :=
    .of_same (fun _ => ()) (fun s => { s with groupDepth := s.groupDepth + 1 }) (fun _ _ => rfl)
      fun _ => rfl
  exitGroup :=
    .of_same (fun _ => ()) (fun s => { s with groupDepth := s.groupDepth - 1 }) (fun _ _ => rfl)
      fun _ => rfl
  setInReturnType value :=
    .of_same (·.inReturnType) (fun s => { s with inReturnType := value }) (fun _ _ => rfl)
      fun _ => rfl
  enterBlock :=
    .of_same (·.groupDepth) (fun s => { s with groupDepth := 0 }) (fun _ _ => rfl) fun _ => rfl
  exitBlock := .exitBlock

instance : Throws (Nearsighted H) where
  throw := .throw

/-- The records do not matter, even that of the end of a parse. -/
instance record {event : Event} : Obeys (Nearsighted H) (Parse.record event) :=
  ⟨SeesTo.record event⟩

end Nearsighted

end SurfaceGrammar

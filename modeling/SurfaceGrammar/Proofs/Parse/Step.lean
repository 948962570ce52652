import SurfaceGrammar.Proofs.Grammar.Phrase
import SurfaceGrammar.Proofs.Token.Reads

/-!
# The steps of a parse

A production is a sequence of steps. This file says what each step does to the tokens that lie
ahead, so that proofs about productions take them apart step by step and never look into a
state.

* `ParseState.ahead`: the tokens that were not passed, without the one for the end.
* `ParseState.Placed`: what holds of every state of a parse.
* `ParseState.Passes`: from one state to another a list of tokens was passed.
* `Parse.ok_of_bind`, `Parse.bind_of_ok`: a sequence of steps taken apart and put together.
* `Parse.passes_of_advance`, `Parse.exists_advance`: a single token, in both directions.
-/

namespace SurfaceGrammar

open Lookahead

namespace Lookahead

/-- The token is the first of those that lie ahead, or stands for the end. -/
def Sees (t : Token) (ts : List Token) : Prop :=
  (ts = [] ∧ t.kind = .eof) ∨ ∃ rest, ts = t :: rest

section Sees

variable {t : Token} {ts : List Token}

theorem Sees.kind (h : Sees t ts) : kind ts = t.kind := by
  obtain ⟨rfl, h⟩ | ⟨rest, rfl⟩ := h
  · exact h.symm
  · rfl

theorem Sees.isKeyword (h : Sees t ts) (keyword : Keyword) :
    isKeyword keyword ts = t.isKeyword keyword := by
  obtain ⟨rfl, h⟩ | ⟨rest, rfl⟩ := h
  · simp [Lookahead.isKeyword, Token.isKeyword, Token.keyword?, h]
  · rfl

theorem Sees.isField (h : Sees t ts) : isField ts = Parse.isField t := by
  obtain ⟨rfl, h⟩ | ⟨rest, rfl⟩ := h
  · simp [Lookahead.isField, Parse.isField, h]
  · rfl

theorem Sees.eq_cons (h : Sees t ts) (ht : t.kind ≠ .eof) : ∃ rest, ts = t :: rest := by
  obtain ⟨-, h⟩ | h := h
  · exact absurd h ht
  · exact h

end Sees

end Lookahead

section Field

variable {t : Token}

theorem Parse.kind_of_isField (h : isField t = true) : t.kind = .identifier := by
  simp only [isField, Bool.and_eq_true, decide_eq_true_eq] at h
  exact h.1.1

/-- The word of a function is taken for a field on the line of a point. -/
theorem Parse.isField_of_isKeyword_fn (h : t.isKeyword .fn = true)
    (hline : ¬t.newlineBefore = true) : isField t = true := by
  have hkeyword := Token.isKeyword_iff.mp h
  simp [isField, Token.isKeyword, hkeyword, Token.kind_of_keyword? hkeyword, hline]

end Field

/-- What reading from a stream gives: its first token, or its ending again and again. -/
theorem TokenStream.ok_of_read {stream rest : TokenStream} {t : Token}
    (h : stream.read = .ok (t, rest)) :
    (∃ ts, stream.tokens = t :: ts ∧ rest = { stream with tokens := ts }) ∨
      (stream.tokens = [] ∧ stream.ending = .ok t ∧ rest = stream) := by
  unfold TokenStream.read at h
  split at h
  · next u ts hts =>
    cases h
    exact .inl ⟨ts, hts, rfl⟩
  · next hts =>
    cases hend : stream.ending with
    | error error =>
      rw [hend] at h
      cases h
    | ok stop =>
      rw [hend] at h
      cases h
      exact .inr ⟨hts, rfl, rfl⟩

/-- A stream with an ending that can be read can be read. -/
theorem TokenStream.exists_read {stream : TokenStream} {stop : Token}
    (h : stream.ending = .ok stop) : ∃ t rest, stream.read = .ok (t, rest) := by
  unfold TokenStream.read
  split
  · exact ⟨_, _, rfl⟩
  · rw [h]
    exact ⟨_, _, rfl⟩

/-! ## Levels -/

@[simp] theorem rules_descent (rules : Rules) (elseRequired : Bool) (levels : Nat) :
    (descent rules elseRequired levels).rules = rules := by
  cases levels <;> rfl

@[simp] theorem elseRequired_descent (rules : Rules) (elseRequired : Bool) (levels : Nat) :
    (descent rules elseRequired levels).elseRequired = elseRequired := by
  cases levels <;> rfl

@[simp] theorem bound_descent (rules : Rules) (elseRequired : Bool) (levels : Nat) :
    (descent rules elseRequired levels).bound = levels := by
  cases levels <;> rfl

/-! ## States -/

namespace ParseState

/-- The tokens that were not passed, without the one for the end of the source. -/
def ahead (s : ParseState) : List Token :=
  if s.current.kind = .eof then [] else s.current :: s.upcoming.tokens

/-- What a production can know in the state besides the tokens. -/
def surroundings (s : ParseState) : Surroundings :=
  ⟨s.groupDepth ≠ 0, s.inReturnType⟩

/-- What holds of every state of a parse: the token for the end stands only at the end. -/
structure Placed (s : ParseState) : Prop where
  atEnd : s.current.kind = .eof → s.upcoming.tokens = [] ∧ s.upcoming.ending = .ok s.current
  ending : ∀ t, s.upcoming.ending = .ok t → t.kind = .eof
  upcoming : ∀ t ∈ s.upcoming.tokens, t.Proper
  current : s.current.kind ≠ .eof → s.current.Proper

/-- A state from which the rest of the source can be read. -/
structure Ready (s : ParseState) : Prop extends s.Placed where
  readable : ∃ t, s.upcoming.ending = .ok t

/-- A state from which the tokens in front of `r` can be passed: the first token of `r` can be read,
or the end of the source. -/
structure ReadyFor (s : ParseState) (r : List Token) : Prop extends s.Placed where
  readable : r = [] → ∃ t, s.upcoming.ending = .ok t

/-- From one state to another the tokens `w` were passed, and nothing else changed on which a
production depends. -/
structure Passes (s : ParseState) (w : List Token) (s' : ParseState) : Prop where
  ahead : s.ahead = w ++ s'.ahead
  groupDepth : s'.groupDepth = s.groupDepth
  inReturnType : s'.inReturnType = s.inReturnType
  ending : s'.upcoming.ending = s.upcoming.ending
  placed : s'.Placed

variable {s s₁ s₂ : ParseState} {v w : List Token}

theorem sees_current (s : ParseState) : Sees s.current s.ahead := by
  unfold ahead
  split
  · next h => exact .inl ⟨rfl, h⟩
  · exact .inr ⟨_, rfl⟩

@[simp] theorem kind_ahead (s : ParseState) : kind s.ahead = s.current.kind :=
  (sees_current s).kind

@[simp] theorem isKeyword_ahead (s : ParseState) (keyword : Keyword) :
    isKeyword keyword s.ahead = s.current.isKeyword keyword :=
  (sees_current s).isKeyword keyword

theorem ahead_of_ne_eof (h : s.current.kind ≠ .eof) :
    s.ahead = s.current :: s.upcoming.tokens :=
  if_neg h

theorem ahead_eq_nil : s.ahead = [] ↔ s.current.kind = .eof := by
  unfold ahead
  split <;> simp_all

theorem current_of_ahead {u : Token} (h : s.ahead = u :: v) : s.current = u := by
  by_cases heof : s.current.kind = .eof
  · rw [ahead_eq_nil.mpr heof] at h
    cases h
  · rw [ahead_of_ne_eof heof] at h
    cases h
    rfl

theorem Placed.proper (hs : s.Placed) : s.upcoming.Proper := ⟨hs.upcoming, hs.ending⟩

/-- What holds of the states of a parse depends on the tokens alone. -/
theorem Placed.congr (hs : s.Placed) (hcurrent : s₁.current = s.current)
    (hupcoming : s₁.upcoming = s.upcoming) : s₁.Placed where
  atEnd := by rw [hcurrent, hupcoming]; exact hs.atEnd
  ending := by rw [hupcoming]; exact hs.ending
  upcoming := by rw [hupcoming]; exact hs.upcoming
  current := by rw [hcurrent]; exact hs.current

/-- A line break ends an expression before the token at which the parse stands. -/
theorem atLineBreak_eq (s : ParseState) : s.atLineBreak = breaks s.surroundings [s.current] := by
  simp [ParseState.atLineBreak, breaks, surroundings, isOnNewLine]

theorem ahead_congr (hcurrent : s₁.current = s.current) (hupcoming : s₁.upcoming = s.upcoming) :
    s₁.ahead = s.ahead := by
  simp only [ahead, hcurrent, hupcoming]

namespace Passes

theorem surroundings (h : s.Passes w s₁) : s₁.surroundings = s.surroundings := by
  simp only [ParseState.surroundings, h.groupDepth, h.inReturnType]

theorem refl (hs : s.Placed) : s.Passes [] s :=
  ⟨rfl, rfl, rfl, rfl, hs⟩

theorem trans (h : s.Passes v s₁) (h' : s₁.Passes w s₂) : s.Passes (v ++ w) s₂ where
  ahead := by rw [h.ahead, h'.ahead, List.append_assoc]
  groupDepth := h'.groupDepth.trans h.groupDepth
  inReturnType := h'.inReturnType.trans h.inReturnType
  ending := h'.ending.trans h.ending
  placed := h'.placed

theorem cons {t : Token} (h : s.Passes [t] s₁) (h' : s₁.Passes w s₂) : s.Passes (t :: w) s₂ :=
  h.trans h'

theorem readyFor {r : List Token} (h : s.Passes w s₁) (hs : s.ReadyFor r) : s₁.ReadyFor r where
  toPlaced := h.placed
  readable hr := by rw [h.ending]; exact hs.readable hr

/-- The tokens that are passed in another context are passed in this one, if it is restored
afterwards. -/
theorem restore {t t' s' : ParseState} (h : t.Passes w t') (hcurrent : t.current = s.current)
    (hupcoming : t.upcoming = s.upcoming) (hcurrent' : s'.current = t'.current)
    (hupcoming' : s'.upcoming = t'.upcoming) (hdepth : s'.groupDepth = s.groupDepth)
    (htype : s'.inReturnType = s.inReturnType) : s.Passes w s' where
  ahead := by
    rw [← ahead_congr hcurrent hupcoming, h.ahead, ahead_congr hcurrent' hupcoming']
  groupDepth := hdepth
  inReturnType := htype
  ending := by rw [hupcoming', h.ending, hupcoming]
  placed := h.placed.congr hcurrent' hupcoming'

/-- What lies ahead after a list of tokens was passed. -/
theorem ahead_eq {r : List Token} (h : s.Passes w s₁) (hr : s.ahead = w ++ r) : s₁.ahead = r :=
  List.append_cancel_left (h.ahead.symm.trans hr)

end Passes

namespace ReadyFor

variable {t : Token} {r : List Token}

theorem of_ready (hs : s.Ready) (r : List Token) : s.ReadyFor r :=
  ⟨hs.toPlaced, fun _ => hs.readable⟩

/-- A token ahead can be read. -/
theorem of_cons (hs : s.Placed) (t : Token) (r : List Token) : s.ReadyFor (t :: r) :=
  ⟨hs, nofun⟩

theorem append (hs : s.ReadyFor r) (w : List Token) : s.ReadyFor (w ++ r) :=
  ⟨hs.toPlaced, fun hnil => hs.readable (List.append_eq_nil_iff.mp hnil).2⟩

theorem congr (hs : s.ReadyFor r) (hcurrent : s₁.current = s.current)
    (hupcoming : s₁.upcoming = s.upcoming) : s₁.ReadyFor r where
  toPlaced := hs.toPlaced.congr hcurrent hupcoming
  readable := by rw [hupcoming]; exact hs.readable

/-- What stands behind a token can be read. -/
theorem exists_read (hs : s.ReadyFor r) (h : s.ahead = t :: r) :
    s.current.kind ≠ .eof ∧ ∃ u rest, s.upcoming.read = .ok (u, rest) := by
  have hne : s.current.kind ≠ .eof := fun heof => by
    rw [ahead_eq_nil.mpr heof] at h
    cases h
  refine ⟨hne, ?_⟩
  rw [ahead_of_ne_eof hne, List.cons.injEq] at h
  obtain ⟨-, htokens⟩ := h
  unfold TokenStream.read
  rw [htokens]
  cases r with
  | cons u rest => exact ⟨_, _, rfl⟩
  | nil =>
    obtain ⟨stop, hstop⟩ := hs.readable rfl
    rw [hstop]
    exact ⟨_, _, rfl⟩

end ReadyFor

end ParseState

/-! ## Sequences of steps -/

namespace Parse

variable {β γ : Type}

/-- A sequence of steps that succeeds, taken apart. -/
theorem ok_of_bind {x : Parse β} {f : β → Parse γ} {s s' : ParseState} {b : γ}
    (h : (x >>= f) s = .ok b s') : ∃ a s₁, x s = .ok a s₁ ∧ f a s₁ = .ok b s' := by
  change EStateM.bind x f s = _ at h
  unfold EStateM.bind at h
  split at h
  · exact ⟨_, _, ‹_›, h⟩
  · cases h

/-- A sequence of steps put together. -/
theorem bind_of_ok {x : Parse β} {f : β → Parse γ} {s s₁ : ParseState} {a : β}
    (h : x s = .ok a s₁) : (x >>= f) s = f a s₁ := by
  change EStateM.bind x f s = _
  unfold EStateM.bind
  rw [h]

/-- A sequence of steps of which the first one fails. -/
theorem bind_of_error {x : Parse β} {f : β → Parse γ} {s s₁ : ParseState} {failure : Failure}
    (h : x s = .error failure s₁) : (x >>= f) s = .error failure s₁ := by
  change EStateM.bind x f s = _
  unfold EStateM.bind
  rw [h]

theorem ok_of_map {x : Parse β} {f : β → γ} {s s' : ParseState} {b : γ}
    (h : (f <$> x) s = .ok b s') : ∃ a, x s = .ok a s' ∧ f a = b := by
  change EStateM.map f x s = _ at h
  unfold EStateM.map at h
  split at h
  · cases h
    exact ⟨_, ‹_›, rfl⟩
  · cases h

theorem map_of_ok {x : Parse β} {f : β → γ} {s s' : ParseState} {a : β}
    (h : x s = .ok a s') : (f <$> x) s = .ok (f a) s' := by
  change EStateM.map f x s = _
  unfold EStateM.map
  rw [h]

theorem map_of_error {x : Parse β} {f : β → γ} {s s' : ParseState} {failure : Failure}
    (h : x s = .error failure s') : (f <$> x) s = .error failure s' := by
  change EStateM.map f x s = _
  unfold EStateM.map
  rw [h]

/-- Two steps that are the same from a state, in front of steps that are the same behind them. -/
theorem bind_congr {x y : Parse β} {f g : β → Parse γ} {s : ParseState} (hxy : x s = y s)
    (hfg : ∀ a s₁, y s = .ok a s₁ → f a s₁ = g a s₁) : (x >>= f) s = (y >>= g) s := by
  cases hy : y s with
  | ok a s₁ => rw [bind_of_ok (hxy.trans hy), bind_of_ok hy, hfg a s₁ hy]
  | error failure s₁ => rw [bind_of_error (hxy.trans hy), bind_of_error hy]

theorem map_congr {x y : Parse β} {f : β → γ} {s t : ParseState} (h : x s = y t) :
    (f <$> x) s = (f <$> y) t := by
  change EStateM.map f x s = EStateM.map f y t
  unfold EStateM.map
  rw [h]

theorem andFinally_congr {x y : Parse β} {after : Parse Unit} {s : ParseState} (h : x s = y s) :
    andFinally x after s = andFinally y after s := by
  unfold andFinally
  rw [h]

/-- A step after which a block is left. -/
theorem ok_of_exitBlock {step : Parse β} {s s' : ParseState} {b : β} {depth : Nat}
    (h : andFinally step (exitBlock depth) s = .ok b s') :
    ∃ s₁, step s = .ok b s₁ ∧ s' = { s₁ with groupDepth := depth } := by
  unfold andFinally at h
  split at h
  · next hstep =>
    cases h
    exact ⟨_, hstep, rfl⟩
  · cases h

theorem exitBlock_of_ok {step : Parse β} {s s₁ : ParseState} {b : β} (depth : Nat)
    (h : step s = .ok b s₁) :
    andFinally step (exitBlock depth) s = .ok b { s₁ with groupDepth := depth } := by
  unfold andFinally
  rw [h]
  rfl

section Bind

variable (s : ParseState)

@[simp] theorem pure_apply (b : β) : (pure b : Parse β) s = .ok b s := rfl

@[simp] theorem bind_currentKind (f : TokenKind → Parse β) :
    (currentKind >>= f) s = f s.current.kind s := rfl

@[simp] theorem bind_current (f : Token → Parse β) :
    (current >>= f) s = f s.current s := rfl

@[simp] theorem bind_standsAt (kind : TokenKind) (f : Bool → Parse β) :
    (standsAt kind >>= f) s = f (decide (s.current.kind = kind)) s := rfl

@[simp] theorem bind_atLineBreak (f : Bool → Parse β) :
    (atLineBreak >>= f) s = f s.atLineBreak s := rfl

@[simp] theorem bind_get (f : ParseState → Parse β) : (get >>= f : Parse β) s = f s s := rfl

@[simp] theorem bind_spanFrom (start : Position) (f : Span → Parse β) :
    (spanFrom start >>= f) s = f (s.spanFrom start) s := rfl

@[simp] theorem bind_atStatement (f : Unit → Parse β) :
    (Watch.idle.atStatement >>= f) s = f () s := by
  rw [Watch.atStatement_idle, pure_bind]

@[simp] theorem bind_record (event : Event) (f : Unit → Parse β) :
    (record event >>= f) s = f () { s with events := s.events.push event } := rfl

@[simp] theorem bind_enterGroup (f : Unit → Parse β) :
    (enterGroup >>= f) s = f () { s with groupDepth := s.groupDepth + 1 } := rfl

@[simp] theorem bind_atExit (f : Unit → Parse β) : (Watch.idle.atExit >>= f) s = f () s := by
  rw [Watch.atExit_idle, pure_bind]

@[simp] theorem bind_exitGroup (f : Unit → Parse β) :
    (exitGroup >>= f) s = f () { s with groupDepth := s.groupDepth - 1 } := rfl

@[simp] theorem bind_enterBlock (f : Nat → Parse β) :
    (enterBlock >>= f) s = f s.groupDepth { s with groupDepth := 0 } := rfl

@[simp] theorem bind_setInReturnType (value : Bool) (f : Bool → Parse β) :
    (setInReturnType value >>= f) s = f s.inReturnType { s with inReturnType := value } := rfl

end Bind

/-! ## Steps that succeed -/

section Ok

variable {s s' : ParseState} {t : Token}

theorem unexpected_ne_ok {b : β} {expected : List TokenKind} :
    unexpected expected s ≠ .ok b s' := by
  intro h
  cases h

theorem passes_of_advance (hs : s.Placed) (ht : s.current.kind ≠ .eof)
    (h : advance s = .ok t s') : t = s.current ∧ s.Passes [t] s' := by
  unfold advance at h
  split at h
  · cases h
  · next next upcoming hread =>
    cases h
    refine ⟨rfl, ?_⟩
    obtain ⟨ts, hts, rfl⟩ | ⟨hts, hstop, rfl⟩ := TokenStream.ok_of_read hread
    · have hup := hs.upcoming
      rw [hts] at hup
      have hproper := hup next List.mem_cons_self
      refine ⟨?_, rfl, rfl, rfl, ?_, hs.ending, ?_, fun _ => hproper⟩
      · simp [ParseState.ahead, ht, hproper.ne_eof, hts]
      · exact fun he => absurd he hproper.ne_eof
      · exact fun u hu => hup u (List.mem_cons_of_mem next hu)
    · have heof := hs.ending next hstop
      refine ⟨?_, rfl, rfl, rfl, ?_, hs.ending, hs.upcoming, fun hne => absurd heof hne⟩
      · simp [ParseState.ahead, ht, heof, hts]
      · exact fun _ => ⟨hts, hstop⟩

theorem passes_of_peek (hs : s.Placed) (h : peek s = .ok t s') :
    s.Passes [] s' ∧ Sees t s.ahead.tail ∧ s'.current = s.current := by
  unfold peek at h
  split at h
  · cases h
  · next next upcoming hread =>
    have hsees : Sees next s.ahead.tail := by
      by_cases heof : s.current.kind = .eof
      · obtain ⟨hts, hending⟩ := hs.atEnd heof
        obtain ⟨ts, hts', -⟩ | ⟨-, hstop, -⟩ := TokenStream.ok_of_read hread
        · rw [hts] at hts'
          cases hts'
        · exact .inl ⟨by simp [ParseState.ahead, heof], hs.ending next hstop⟩
      · rw [ParseState.ahead_of_ne_eof heof]
        obtain ⟨ts, hts, -⟩ | ⟨hts, hstop, -⟩ := TokenStream.ok_of_read hread
        · exact .inr ⟨ts, hts⟩
        · exact .inl ⟨hts, hs.ending next hstop⟩
    split at h
    · cases h
      exact ⟨.refl hs, hsees, rfl⟩
    · cases h
      exact ⟨⟨rfl, rfl, rfl, rfl, hs.congr rfl rfl⟩, hsees, rfl⟩

theorem passes_of_expectOr {kind : TokenKind} {expected : List TokenKind} (hs : s.Placed)
    (hk : kind ≠ .eof) (h : expectOr kind expected s = .ok t s') :
    t = s.current ∧ t.kind = kind ∧ s.Passes [t] s' := by
  unfold expectOr at h
  rw [bind_currentKind] at h
  split at h
  · next heq =>
    obtain ⟨rfl, hpass⟩ := passes_of_advance hs (heq ▸ hk) h
    exact ⟨rfl, heq, hpass⟩
  · exact absurd h unexpected_ne_ok

theorem passes_of_expect {kind : TokenKind} (hs : s.Placed) (hk : kind ≠ .eof)
    (h : expect kind s = .ok t s') : t = s.current ∧ t.kind = kind ∧ s.Passes [t] s' :=
  passes_of_expectOr hs hk h

end Ok

/-! ## Steps that can be taken -/

section Exists

variable {s : ParseState} {t : Token} {ts : List Token}

theorem exists_advance (hs : s.ReadyFor ts) (h : s.ahead = t :: ts) :
    ∃ s', advance s = .ok t s' ∧ s.Passes [t] s' := by
  obtain ⟨hne, next, rest, hread⟩ := hs.exists_read h
  have hadvance : ∃ u s', advance s = .ok u s' := by
    unfold advance
    rw [hread]
    exact ⟨_, _, rfl⟩
  obtain ⟨u, s', hu⟩ := hadvance
  obtain ⟨rfl, hpass⟩ := passes_of_advance hs.toPlaced hne hu
  rw [ParseState.ahead_of_ne_eof hne] at h
  cases h
  exact ⟨s', hu, hpass⟩

theorem exists_peek {next : Token} {rest : TokenStream} (hs : s.Placed)
    (hread : s.upcoming.read = .ok (next, rest)) :
    ∃ u s', peek s = .ok u s' ∧ s.Passes [] s' ∧ Sees u s.ahead.tail ∧
      s'.current = s.current := by
  have hpeek : ∃ u s', peek s = .ok u s' := by
    unfold peek
    rw [hread]
    split
    · next h => cases h
    · split <;> exact ⟨_, _, rfl⟩
  obtain ⟨u, s', hu⟩ := hpeek
  exact ⟨u, s', hu, passes_of_peek hs hu⟩

theorem exists_expectOr {kind : TokenKind} (expected : List TokenKind) (hs : s.ReadyFor ts)
    (h : s.ahead = t :: ts) (hk : t.kind = kind) :
    ∃ s', expectOr kind expected s = .ok t s' ∧ s.Passes [t] s' := by
  unfold expectOr
  rw [bind_currentKind, if_pos (by rw [← ParseState.kind_ahead, h]; exact hk)]
  exact exists_advance hs h

end Exists

end Parse

/-! ## Whole sources -/

section Source

variable {source : String} {settings : Settings} {s : ParseState}

/-- A parse begins at the first token of its source, outside of all delimiters. -/
theorem ParseState.start_eq_ok_iff : ParseState.start source settings = .ok s ↔
    ∃ t rest, (TokenStream.ofSource source settings.file).read = .ok (t, rest) ∧
      s = { upcoming := rest, peeked := false, current := t, lastEnd := ⟨0, settings.file⟩,
            groupDepth := 0, inReturnType := false, events := lexed t } := by
  unfold ParseState.start ParseState.ofStream
  cases (TokenStream.ofSource source settings.file).read with
  | error e => simp [Except.map]
  | ok first =>
    obtain ⟨t, rest⟩ := first
    constructor
    · rintro ⟨⟩
      exact ⟨t, rest, rfl, rfl⟩
    · rintro ⟨_, _, ⟨⟩, rfl⟩
      rfl

theorem ParseState.start_eq_error_iff {e : Error} : ParseState.start source settings = .error e ↔
    (TokenStream.ofSource source settings.file).read = .error e := by
  unfold ParseState.start ParseState.ofStream
  cases (TokenStream.ofSource source settings.file).read <;> simp [Except.map]

/-- The state at the first token of a source has all tokens of the source ahead. -/
theorem ParseState.of_start (h : ParseState.start source settings = .ok s) :
    s.Placed ∧ s.surroundings = .outside ∧
      s.ahead = (TokenStream.ofSource source settings.file).tokens ∧
      s.upcoming.ending = (TokenStream.ofSource source settings.file).ending := by
  have hproper := TokenStream.proper_ofScanner settings.file (Scanner.ofSource source)
  obtain ⟨t, rest, hread, rfl⟩ := ParseState.start_eq_ok_iff.mp h
  obtain ⟨ts, hts, rfl⟩ | ⟨hts, hstop, rfl⟩ := TokenStream.ok_of_read hread
  · have htokens := hproper.tokens
    change ∀ u ∈ (TokenStream.ofSource source settings.file).tokens, u.Proper at htokens
    rw [hts] at htokens
    have ht := htokens t List.mem_cons_self
    refine ⟨⟨fun heof => absurd heof ht.ne_eof, hproper.ending, ?_, fun _ => ht⟩, rfl, ?_, rfl⟩
    · exact fun u hu => htokens u (List.mem_cons_of_mem t hu)
    · rw [hts]
      exact if_neg ht.ne_eof
  · have heof := hproper.ending t hstop
    refine ⟨⟨fun _ => ⟨hts, hstop⟩, hproper.ending, hproper.tokens, ?_⟩, rfl, ?_, rfl⟩
    · exact fun hne => absurd heof hne
    · rw [hts]
      exact if_pos heof

theorem ParseState.length_ahead_lt_levels (s : ParseState) : s.ahead.length < s.levels := by
  have hle : s.ahead.length ≤ s.upcoming.tokens.length + 1 := by
    unfold ParseState.ahead
    split
    · exact Nat.zero_le _
    · exact Nat.le_refl _
  unfold ParseState.levels
  omega

/-- If the tokens of a source can all be read, its parse begins with all of them ahead. -/
theorem ParseState.exists_start {ts : List Token} {stop : Token}
    (h : TokenStream.ofSource source settings.file = ⟨ts, .ok stop⟩) :
    ∃ s, ParseState.start source settings = .ok s ∧ s.Ready ∧ s.surroundings = .outside ∧
      s.ahead = ts := by
  obtain ⟨t, rest, hread⟩ := TokenStream.exists_read (congrArg TokenStream.ending h)
  have hs := ParseState.start_eq_ok_iff.mpr ⟨t, rest, hread, rfl⟩
  obtain ⟨hplaced, houtside, hahead, hending⟩ := ParseState.of_start hs
  rw [h] at hahead hending
  exact ⟨_, hs, ⟨hplaced, stop, hending⟩, houtside, hahead⟩

theorem exists_of_isOk {ε α : Type} {result : Except ε α} (h : result.isOk = true) :
    ∃ a, result = .ok a := by
  cases result with
  | ok a => exact ⟨a, rfl⟩
  | error failure => cases h

/-- A parse that succeeds, as a run of the production for whole sources. -/
theorem parse_eq_ok_iff {m : Module} :
    parse source settings = .ok m ↔ ∃ s s', ParseState.start source settings = .ok s ∧
      Parse.wholeSource settings.file (descent .standard settings.elseRequired s.levels) s =
        .ok m s' := by
  unfold parse parseRecorded
  constructor
  · intro h
    split at h
    · cases h
    · next s hs =>
      split at h
      · next whole s' hwhole =>
        cases h
        exact ⟨s, s', hs, hwhole⟩
      · cases h
  · rintro ⟨s, s', hs, hwhole⟩
    rw [hs]
    dsimp only [Parse.bounded]
    rw [hwhole]

end Source

end SurfaceGrammar

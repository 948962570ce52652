import SurfaceGrammar.Proofs.Parse.Forward

/-!
# Two parses that part at one token

Two streams have the same tokens up to a place at which the second one goes on with another token
and then ends. The parses of both are in the same state until they stand at that place. There one
of them may pass its token while the other one does something else, or the first one refuses its
token, or both go on as if nothing was different. What is kept track of is whether the error of the
first parse lists the kind of the token that the second one has there.

* `Front`: a token and what is read after it.
* `ParseState.Faces`: the tokens of a list lie ahead of a state, and then a front.
* `Clears`: what may come out once the token of a front was passed.
* `Fork`: the fronts at which two streams part.
* `Fork.Outcome`: results of two parses that part there.
* `Fork.Keeps`: a step whose results are such, wherever it begins.
-/

namespace SurfaceGrammar

variable {β γ : Type}

/-- A course of which nothing is known but whether branches may be asked for. -/
def Course.anywhere (strict : Prop) : Course := ⟨fun _ => True, strict⟩

instance {strict : Prop} {p : Position} : Fact ((Course.anywhere strict).Opens p) :=
  ⟨{ kind := .identifier, value := "", span := ⟨p, p⟩, newlineBefore := false },
    trivial, nofun, rfl⟩

theorem ParseState.Placed.begins {s : ParseState} (hs : s.Placed) (strict : Prop) :
    s.Begins (.anywhere strict) :=
  ⟨hs, trivial, fun _ _ => trivial, fun _ _ => trivial⟩

/-! ## Fronts -/

/-- A token and what is read after it. -/
structure Front where
  token : Token
  behind : TokenStream

namespace Front

/-- The number of tokens from the front on, without the one for the end. -/
def length (front : Front) : Nat :=
  if front.token.kind = .eof then 0 else front.behind.tokens.length + 1

/-- From the stream the tokens of a list are read, and then the front. -/
inductive Comes (front : Front) : List Token → TokenStream → Prop
  | here {stream : TokenStream} (read : stream.read = .ok (front.token, front.behind)) :
    Comes front [] stream
  | later {stream rest : TokenStream} {t : Token} {v : List Token}
    (read : stream.read = .ok (t, rest)) (ne_eof : t.kind ≠ .eof) (tail : Comes front v rest) :
    Comes front (t :: v) stream

variable {front : Front} {v : List Token} {stream : TokenStream}

theorem Comes.length_tokens (h : front.Comes v stream) (hproper : stream.Proper) :
    stream.tokens.length = v.length + front.length := by
  induction h with
  | here read =>
    obtain ⟨ts, hts, hrest⟩ | ⟨hts, hending, -⟩ := TokenStream.ok_of_read read
    · have hne := (hproper.tokens front.token (hts ▸ List.mem_cons_self)).ne_eof
      simp [Front.length, hne, hts, hrest]
    · simp [Front.length, hproper.ending _ hending, hts]
  | later read ne_eof tail ih =>
    obtain ⟨ts, hts, rfl⟩ | ⟨-, hending, -⟩ := TokenStream.ok_of_read read
    · have htail := ih ⟨fun u hu => hproper.tokens u (hts ▸ List.mem_cons_of_mem _ hu),
        hproper.ending⟩
      simp only [hts, List.length_cons] at htail ⊢
      omega
    · exact absurd (hproper.ending _ hending) ne_eof

/-- The first token of those that come. -/
theorem Comes.exists_read (h : front.Comes v stream) :
    ∃ rest, stream.read = .ok (v.headD front.token, rest) := by
  cases h with
  | here read => exact ⟨_, read⟩
  | later read _ _ => exact ⟨_, read⟩

end Front

namespace ParseState

/-- The tokens of a list lie ahead of a state, and then the front. -/
inductive Faces (front : Front) : List Token → ParseState → Prop
  | here {s : ParseState} (placed : s.Placed) (current : s.current = front.token)
    (upcoming : s.upcoming = front.behind) : Faces front [] s
  | later {s : ParseState} {t : Token} {v : List Token} (placed : s.Placed)
    (current : s.current = t) (ne_eof : t.kind ≠ .eof) (comes : front.Comes v s.upcoming) :
    Faces front (t :: v) s

namespace Faces

variable {front : Front} {v : List Token} {t : Token} {s s₁ : ParseState}

theorem placed (h : s.Faces front v) : s.Placed := by
  cases h with
  | here placed _ _ => exact placed
  | later placed _ _ _ => exact placed

theorem current (h : s.Faces front v) : s.current = v.headD front.token := by
  cases h with
  | here _ current _ => exact current
  | later _ current _ _ => exact current

theorem current_front (h : s.Faces front []) : s.current = front.token :=
  h.current

theorem eq_nil_of_eof (h : s.Faces front v) (heof : s.current.kind = .eof) : v = [] := by
  cases h with
  | here _ _ _ => rfl
  | later _ current ne_eof _ => exact absurd (current ▸ heof) ne_eof

theorem congr (h : s.Faces front v) (hcurrent : s₁.current = s.current)
    (hupcoming : s₁.upcoming = s.upcoming) : s₁.Faces front v := by
  have hplaced := h.placed.congr hcurrent hupcoming
  cases h with
  | here _ current upcoming =>
    exact .here hplaced (hcurrent.trans current) (hupcoming.trans upcoming)
  | later _ current ne_eof comes =>
    exact .later hplaced (hcurrent.trans current) ne_eof (hupcoming ▸ comes)

theorem length_ahead (h : s.Faces front v) : s.ahead.length = v.length + front.length := by
  cases h with
  | here placed current upcoming =>
    unfold ahead Front.length
    rw [current, upcoming]
    split <;> simp
  | later placed current ne_eof comes =>
    have hlength := comes.length_tokens ⟨placed.upcoming, placed.ending⟩
    rw [ahead_of_ne_eof (current ▸ ne_eof), List.length_cons, hlength, List.length_cons]
    omega

theorem exists_advance (h : s.Faces front (t :: v)) : ∃ s₁, Parse.advance s = .ok t s₁ ∧
    s₁.Faces front v ∧ s₁.lastEnd = t.span.stop ∧ s₁.groupDepth = s.groupDepth ∧
    s₁.inReturnType = s.inReturnType := by
  cases h with
  | later placed current ne_eof comes =>
    subst current
    have hpass {s₁ : ParseState} (hs₁ : Parse.advance s = .ok s.current s₁) : s₁.Placed :=
      (Parse.passes_of_advance placed ne_eof hs₁).2.placed
    unfold Parse.advance at hpass ⊢
    cases comes with
    | here read =>
      rw [read] at hpass ⊢
      exact ⟨_, rfl, .here (hpass rfl) rfl rfl, rfl, rfl, rfl⟩
    | later read ne_eof tail =>
      rw [read] at hpass ⊢
      exact ⟨_, rfl, .later (hpass rfl) rfl ne_eof tail, rfl, rfl, rfl⟩

theorem exists_peek (h : s.Faces front (t :: v)) : ∃ s₁,
    Parse.peek s = .ok (v.headD front.token) s₁ ∧ s₁.Faces front (t :: v) ∧
    s₁.lastEnd = s.lastEnd ∧ s₁.groupDepth = s.groupDepth ∧
    s₁.inReturnType = s.inReturnType := by
  have hcomes : front.Comes v s.upcoming := by
    cases h with
    | later _ _ _ comes => exact comes
  obtain ⟨rest, hread⟩ := hcomes.exists_read
  unfold Parse.peek
  rw [hread]
  by_cases hpeeked : s.peeked = true
  · exact ⟨s, if_pos hpeeked, h, rfl, rfl, rfl⟩
  · exact ⟨_, if_neg hpeeked, h.congr rfl rfl, rfl, rfl, rfl⟩

/-- What follows the record of an event. -/
theorem record_cases {event : Event} (h : s.Faces front v) {f : Unit → Parse β}
    {P : EStateM.Result Failure ParseState β → Prop}
    (hf : ∀ s₁, s₁.Faces front v → P (f () s₁)) : P ((Parse.record event >>= f) s) :=
  hf _ (h.congr rfl rfl)

/-- What follows a look at the token behind the front. -/
theorem peek_cases (h : s.Faces front []) {f : Token → Parse β}
    {P : EStateM.Result Failure ParseState β → Prop}
    (hunreadable : ∀ e, front.behind.ending = .error e → P (.error (.error e) s))
    (hf : ∀ t s₁, s₁.Faces front [] → P (f t s₁)) : P ((Parse.peek >>= f) s) := by
  cases h with
  | here placed current upcoming =>
    change P (EStateM.bind Parse.peek f s)
    unfold EStateM.bind Parse.peek
    cases hread : s.upcoming.read with
    | error e => exact hunreadable e (upcoming ▸ TokenStream.ending_of_read hread)
    | ok first =>
      dsimp only
      cases s.peeked with
      | true => exact hf _ s (.here placed current upcoming)
      | false => exact hf _ _ (.here (placed.congr rfl rfl) current upcoming)

/-- What follows a token before the front. -/
theorem advance_cases (h : s.Faces front (t :: v)) {f : Token → Parse β}
    {P : EStateM.Result Failure ParseState β → Prop} (hf : ∀ s₁, s₁.Faces front v → P (f t s₁)) :
    P ((Parse.advance >>= f) s) := by
  obtain ⟨s₁, hs₁, hfaces, -⟩ := h.exists_advance
  rw [Parse.bind_of_ok hs₁]
  exact hf s₁ hfaces

/-- What follows a token of an expected kind before the front. -/
theorem expectOr_cases {kind : TokenKind} {expected : List TokenKind}
    (h : s.Faces front (t :: v)) (ht : t.kind = kind) {f : Token → Parse β}
    {P : EStateM.Result Failure ParseState β → Prop} (hf : ∀ s₁, s₁.Faces front v → P (f t s₁)) :
    P ((Parse.expectOr kind expected >>= f) s) := by
  have hbind : (Parse.expectOr kind expected >>= f) s = (Parse.advance >>= f) s := by
    unfold Parse.expectOr
    rw [bind_assoc, Parse.bind_currentKind, if_pos (h.current ▸ ht)]
  rw [hbind]
  exact h.advance_cases hf

end Faces

end ParseState

/-! ## Passing the token of a front -/

/-- What may come out once the token of the front was passed: the tokens behind it cannot be read,
or the step goes on among them. -/
inductive Clears (strict : Prop) (front : Front) : EStateM.Result Failure ParseState β → Prop
  | unreadable {e : Error} {s : ParseState} (ne_eof : front.token.kind ≠ .eof)
    (ending : front.behind.ending = .error e) : Clears strict front (.error (.error e) s)
  | goes {s : ParseState} {r : EStateM.Result Failure ParseState β}
    (ne_eof : front.token.kind ≠ .eof) (placed : s.Placed)
    (fewer : s.ahead.length ≤ front.behind.tokens.length)
    (ending : s.upcoming.ending = front.behind.ending) (goes : Goes (.anywhere strict) s r) :
    Clears strict front r

namespace Clears

variable {strict : Prop} {front : Front} {s : ParseState} {m : Parse β} {f : β → Parse γ}

theorem bind_goes (h : Clears strict front (m s))
    (hf : ∀ b s₁, m s = .ok b s₁ → s₁.Begins (.anywhere strict) →
      Goes (.anywhere strict) s₁ (f b s₁)) : Clears strict front ((m >>= f) s) := by
  change Clears strict front (EStateM.bind m f s)
  unfold EStateM.bind
  generalize m s = r at h hf
  cases h with
  | unreadable ne_eof ending => exact .unreadable ne_eof ending
  | goes ne_eof placed fewer ending goes =>
    cases goes with
    | ok leads =>
      exact .goes ne_eof leads.placed (Nat.le_trans leads.suffix.length_le fewer)
        (leads.ending.trans ending) (hf _ _ rfl (leads.placed.begins strict))
    | error leads raises => exact .goes ne_eof placed fewer ending (.error leads raises)
    | exhausted leads => exact .goes ne_eof placed fewer ending (.exhausted leads)

theorem bind (h : Clears strict front (m s)) [hf : ∀ b, Obeys (Forward (.anywhere strict)) (f b)] :
    Clears strict front ((m >>= f) s) :=
  h.bind_goes fun b s₁ _ hs₁ => (hf b).holds s₁ hs₁

theorem map {g : β → γ} (h : Clears strict front (m s)) : Clears strict front ((g <$> m) s) := by
  rw [map_eq_pure_bind]
  exact h.bind

theorem exitBlock {depth : Nat} (h : Clears strict front (m s)) :
    Clears strict front (Parse.andFinally m (Parse.exitBlock depth) s) := by
  unfold Parse.andFinally
  generalize m s = r at h
  cases h with
  | unreadable ne_eof ending => exact .unreadable ne_eof ending
  | goes ne_eof placed fewer ending goes =>
    cases goes with
    | ok leads =>
      exact .goes ne_eof placed fewer ending (.ok (leads.trans (.of_same leads.placed rfl rfl)))
    | error leads raises =>
      exact .goes ne_eof placed fewer ending
        (.error (leads.trans (.of_same leads.placed rfl rfl)) (raises.congr rfl rfl))
    | exhausted leads =>
      exact .goes ne_eof placed fewer ending
        (.exhausted (leads.trans (.of_same leads.placed rfl rfl)))

theorem advance (h : s.Faces front []) (hne : front.token.kind ≠ .eof) :
    Clears strict front (Parse.advance s) := by
  obtain ⟨hplaced, hcurrent, hupcoming⟩ := h
  have hne' : s.current.kind ≠ .eof := hcurrent ▸ hne
  cases hadvance : Parse.advance s with
  | ok t s₁ =>
    have hpass := (Parse.passes_of_advance hplaced hne' hadvance).2
    have hlength := congrArg List.length hpass.ahead
    rw [ParseState.ahead_of_ne_eof hne', hupcoming] at hlength
    refine .goes hne hpass.placed (Nat.le_of_eq ?_) (hupcoming ▸ hpass.ending)
      (.ok (.refl hpass.placed))
    simpa using hlength.symm
  | error failure s₁ =>
    unfold Parse.advance at hadvance
    split at hadvance
    · next e hread =>
      cases hadvance
      exact .unreadable hne (hupcoming ▸ TokenStream.ending_of_read hread)
    · cases hadvance

theorem expectOr {kind : TokenKind} {expected : List TokenKind} (h : s.Faces front [])
    (hkind : front.token.kind = kind) (hne : kind ≠ .eof) :
    Clears strict front (Parse.expectOr kind expected s) := by
  unfold Parse.expectOr
  rw [Parse.bind_currentKind, if_pos (h.current ▸ hkind)]
  exact advance h (hkind ▸ hne)

end Clears

/-! ## Forks -/

/-- A token that is read to an expression of its own, or begins one, if its kind does. -/
structure Token.Plain (t : Token) : Prop where
  keyword : t.keyword? = none
  number : t.kind = .number →
    ∃ x, (Decimal.read? t.value.toList).filter Binary64.isFinite = some x
  char : t.kind = .char → t.value.toList ≠ []

/-- The fronts at which two streams part, behind the same tokens. Behind the new front there is
only the token for the end. -/
structure Fork where
  /-- The tokens before the fronts. -/
  before : List Token
  old : Front
  new : Front
  /-- Whether branches may be asked for. -/
  strict : Prop
  stop : Token
  behind_new : new.behind = ⟨[], .ok stop⟩
  line : new.token.newlineBefore = old.token.newlineBefore
  plain : new.token.Plain
  /-- The error that stops the old stream does not list any kinds. -/
  fault : ∀ e, old.behind.ending = .error e → e.kind.expected = []

namespace Fork

/-- The last tokens are the word of a function and a name. A word on the line of a point before it
is a field, and not that of a function. -/
def EndsWithName (ts : List Token) : Prop :=
  ∃ word name, [word, name] <:+ ts ∧ word.isKeyword .fn = true ∧ name.kind = .identifier ∧
    ∀ point, [point, word, name] <:+ ts → point.kind = .dot → word.newlineBefore = true

/-- The parse stands behind the name of a function, where an error lists the kind of a name. -/
def IsAfterName (F : Fork) (expected : List TokenKind) : Prop :=
  expected = [.identifier, .openParen] ∧ F.new.token.kind = .identifier ∧ EndsWithName F.before

/-- The kind of the new token is listed, and not as one behind the name of a function. -/
def Lists (F : Fork) (expected : List TokenKind) : Prop :=
  F.new.token.kind ∈ expected ∧ ¬F.IsAfterName expected

/-- The tokens up to the fork begin with a field, behind its point. -/
def AtField (F : Fork) (v : List Token) : Prop :=
  ∃ point field w, v = field :: w ∧ point :: v <:+ F.before ∧ point.kind = .dot ∧
    Parse.isField field = true

/-- Behind a token that is no point there is no field. -/
theorem not_atField_of_ne {F : Fork} {v : List Token} {t : Token} (hwithin : t :: v <:+ F.before)
    (ht : t.kind ≠ .dot) : ¬F.AtField v := by
  rintro ⟨point, field, w, -, hpoint, hdot, -⟩
  have hlength : (t :: v).length = (point :: v).length := rfl
  obtain hsuffix | hsuffix := List.suffix_or_suffix_of_suffix hwithin hpoint
  · have heq := hsuffix.eq_of_length hlength
    rw [(List.cons.inj heq).1] at ht
    exact ht hdot
  · have heq := hsuffix.eq_of_length hlength.symm
    rw [← (List.cons.inj heq).1] at ht
    exact ht hdot

/-- Two states with the same tokens up to the fronts, and the same context. -/
structure Beside (F : Fork) (v : List Token) (s s' : ParseState) : Prop where
  old : s.Faces F.old v
  new : s'.Faces F.new v
  lastEnd : s'.lastEnd = s.lastEnd
  groupDepth : s'.groupDepth = s.groupDepth
  inReturnType : s'.inReturnType = s.inReturnType
  within : v <:+ F.before

/-- Two such states that do not stand at a field: a field is passed together with its point. -/
structure Paired (F : Fork) (v : List Token) (s s' : ParseState) : Prop extends
    F.Beside v s s' where
  apart : ¬F.AtField v

/-- A token in front of the fork that is no point, so that no field stands behind it. -/
def Inside (v : List Token) : Prop :=
  ∃ t w, v = t :: w ∧ t.kind ≠ .dot

namespace Paired

variable {F : Fork} {v : List Token} {t : Token} {s s' s₁ s₁' : ParseState}

theorem not_atField (h : F.Paired (t :: v) s s') (ht : t.kind ≠ .dot) : ¬F.AtField v :=
  not_atField_of_ne h.within ht

/-- The pair in another context. -/
theorem congr (h : F.Paired v s s') (hcurrent : s₁.current = s.current)
    (hupcoming : s₁.upcoming = s.upcoming) (hcurrent' : s₁'.current = s'.current)
    (hupcoming' : s₁'.upcoming = s'.upcoming) (hend : s₁'.lastEnd = s₁.lastEnd)
    (hdepth : s₁'.groupDepth = s₁.groupDepth) (htype : s₁'.inReturnType = s₁.inReturnType) :
    F.Paired v s₁ s₁' :=
  ⟨⟨h.old.congr hcurrent hupcoming, h.new.congr hcurrent' hupcoming', hend, hdepth, htype,
    h.within⟩, h.apart⟩

theorem inContext (h : F.Paired v s s') (depth : Nat) (returnType : Bool) :
    F.Paired v { s with groupDepth := depth, inReturnType := returnType }
      { s' with groupDepth := depth, inReturnType := returnType } :=
  h.congr rfl rfl rfl rfl h.lastEnd rfl rfl

theorem record (h : F.Paired v s s') (event : Event) :
    F.Paired v { s with events := s.events.push event }
      { s' with events := s'.events.push event } :=
  h.congr rfl rfl rfl rfl h.lastEnd h.groupDepth h.inReturnType

theorem spanFrom (h : F.Paired v s s') (start : Position) :
    s'.spanFrom start = s.spanFrom start := by
  rw [ParseState.spanFrom, ParseState.spanFrom, h.lastEnd]

/-- In front of the fork both parses stand at the same token. -/
theorem current_eq (h : F.Paired (t :: v) s s') : s'.current = s.current :=
  h.new.current.trans h.old.current.symm

theorem current (h : F.Paired (t :: v) s s') : s.current = t :=
  h.old.current

/-- A line break stands before both tokens or before none. -/
theorem newlineBefore (h : F.Paired v s s') :
    s'.current.newlineBefore = s.current.newlineBefore := by
  rw [h.new.current, h.old.current]
  cases v with
  | nil => exact F.line
  | cons t v => rfl

theorem atLineBreak (h : F.Paired v s s') : s'.atLineBreak = s.atLineBreak := by
  rw [ParseState.atLineBreak, ParseState.atLineBreak, h.groupDepth, h.newlineBefore]

/-- Whether both parses stand at a token of a kind. -/
theorem kind_cases (h : F.Paired v s s') (kind : TokenKind) :
    (v = [] ∧ s.current.kind = kind) ∨
      (v = [] ∧ s.current.kind ≠ kind ∧ s'.current.kind = kind) ∨
      (v ≠ [] ∧ s.current.kind = kind ∧ s'.current.kind = kind) ∨
      s.current.kind ≠ kind ∧ s'.current.kind ≠ kind := by
  cases v with
  | nil =>
    by_cases hold : s.current.kind = kind
    · exact .inl ⟨rfl, hold⟩
    · by_cases hnew : s'.current.kind = kind
      · exact .inr (.inl ⟨rfl, hold, hnew⟩)
      · exact .inr (.inr (.inr ⟨hold, hnew⟩))
  | cons t v =>
    rw [h.current_eq]
    by_cases hkind : s.current.kind = kind
    · exact .inr (.inr (.inl ⟨List.cons_ne_nil t v, hkind, hkind⟩))
    · exact .inr (.inr (.inr ⟨hkind, hkind⟩))

end Paired

/-! ## Results -/

/-- Results of two parses that part at the fork, or did not come to it. As long as they have not
parted, `Q` holds of what they have. -/
inductive Outcome (F : Fork) (Q : List Token → β → Prop) :
    EStateM.Result Failure ParseState β → EStateM.Result Failure ParseState β → Prop
  /-- Both have the same value. -/
  | both {b : β} {v : List Token} {s s' : ParseState} (paired : F.Paired v s s') (holds : Q v b) :
    Outcome F Q (.ok b s) (.ok b s')
  /-- The old parse has passed its front. -/
  | cleared {r r' : EStateM.Result Failure ParseState β} (clears : Clears F.strict F.old r) :
    Outcome F Q r r'
  /-- The old parse stops with an error that is not one at its front, or does not list the kind of
  the new token. -/
  | refused {e : Error} {s : ParseState} {r' : EStateM.Result Failure ParseState β}
    (apart : s.ahead.length = F.old.length → ¬F.Lists e.kind.expected) :
    Outcome F Q (.error (.error e) s) r'
  /-- The new parse has passed its front. -/
  | passed {r r' : EStateM.Result Failure ParseState β} (clears : Clears F.strict F.new r') :
    Outcome F Q r r'
  | exhausted {r : EStateM.Result Failure ParseState β} {s' : ParseState} :
    Outcome F Q r (.error .exhausted s')
  | lost {s : ParseState} {r' : EStateM.Result Failure ParseState β} :
    Outcome F Q (.error .exhausted s) r'

/-- Nothing is known of what both parses have. -/
def Anything (_ : List Token) (_ : β) : Prop := True

variable {F : Fork} {Q : List Token → β → Prop} {Q' : List Token → γ → Prop} {s s' : ParseState}
  {v : List Token}

namespace Outcome

/-- Two steps, one after the other. What holds of all results that have parted, and of those of the
second step after the first one, holds of the results of both. -/
theorem bind_cases {m : Parse β} {f : β → Parse γ} (h : F.Outcome Q (m s) (m s'))
    (hforward : ∀ b, Obeys (Forward (.anywhere F.strict)) (f b))
    {P : EStateM.Result Failure ParseState γ → EStateM.Result Failure ParseState γ → Prop}
    (hparted : ∀ r r', F.Outcome Q' r r' → P r r')
    (hf : ∀ b v t t', F.Paired v t t' → Q v b → P (f b t) (f b t')) :
    P ((m >>= f) s) ((m >>= f) s') := by
  have hcleared : Clears F.strict F.old (m s) → Clears F.strict F.old ((m >>= f) s) :=
    fun hclears => hclears.bind
  have hpassed : Clears F.strict F.new (m s') → Clears F.strict F.new ((m >>= f) s') :=
    fun hclears => hclears.bind
  revert hcleared hpassed
  change (Clears F.strict F.old (m s) → Clears F.strict F.old (EStateM.bind m f s)) →
    (Clears F.strict F.new (m s') → Clears F.strict F.new (EStateM.bind m f s')) →
    P (EStateM.bind m f s) (EStateM.bind m f s')
  unfold EStateM.bind
  generalize m s = r at h
  generalize m s' = r' at h
  intro hcleared hpassed
  cases h with
  | both paired holds => exact hf _ _ _ _ paired holds
  | cleared clears => exact hparted _ _ (.cleared (hcleared clears))
  | refused apart => exact hparted _ _ (.refused apart)
  | passed clears => exact hparted _ _ (.passed (hpassed clears))
  | exhausted => exact hparted _ _ .exhausted
  | lost => exact hparted _ _ .lost

/-- Two steps, one after the other. -/
theorem bind {m : Parse β} {f : β → Parse γ} (h : F.Outcome Q (m s) (m s'))
    [hforward : ∀ b, Obeys (Forward (.anywhere F.strict)) (f b)]
    (hf : ∀ b v t t', F.Paired v t t' → Q v b → F.Outcome Q' (f b t) (f b t')) :
    F.Outcome Q' ((m >>= f) s) ((m >>= f) s') :=
  h.bind_cases hforward (fun _ _ => id) hf

theorem map {m : Parse β} {g : β → γ} (h : F.Outcome Q (m s) (m s'))
    (hg : ∀ v b, Q v b → Q' v (g b)) : F.Outcome Q' ((g <$> m) s) ((g <$> m) s') := by
  rw [map_eq_pure_bind]
  exact h.bind fun b v t t' ht hb => .both ht (hg v b hb)

/-- A step after which a block is left. -/
theorem exitBlock {m : Parse β} (depth : Nat) (h : F.Outcome Q (m s) (m s')) :
    F.Outcome Q (Parse.andFinally m (Parse.exitBlock depth) s)
      (Parse.andFinally m (Parse.exitBlock depth) s') := by
  have hcleared : Clears F.strict F.old (m s) →
      Clears F.strict F.old (Parse.andFinally m (Parse.exitBlock depth) s) := Clears.exitBlock
  have hpassed : Clears F.strict F.new (m s') →
      Clears F.strict F.new (Parse.andFinally m (Parse.exitBlock depth) s') := Clears.exitBlock
  revert hcleared hpassed
  unfold Parse.andFinally
  generalize m s = r at h
  generalize m s' = r' at h
  intro hcleared hpassed
  cases h with
  | both paired holds =>
    exact .both (paired.congr rfl rfl rfl rfl paired.lastEnd rfl paired.inReturnType) holds
  | cleared clears => exact .cleared (hcleared clears)
  | refused apart => exact .refused apart
  | passed clears => exact .passed (hpassed clears)
  | exhausted => exact .exhausted
  | lost => exact .lost

theorem mono {r r' : EStateM.Result Failure ParseState β} {P : List Token → β → Prop}
    (h : F.Outcome Q r r') (hP : ∀ v b, Q v b → P v b) : F.Outcome P r r' := by
  cases h with
  | both paired holds => exact .both paired (hP _ _ holds)
  | cleared clears => exact .cleared clears
  | refused apart => exact .refused apart
  | passed clears => exact .passed clears
  | exhausted => exact .exhausted
  | lost => exact .lost

/-- An error that lists no kinds. -/
theorem fail {e : Error} (he : e.kind.expected = []) {r' : EStateM.Result Failure ParseState β} :
    F.Outcome Q (Parse.fail e s) r' :=
  .refused fun _ hlists => List.not_mem_nil (he ▸ hlists.1)

theorem kind_unexpected (s : ParseState) (expected : List TokenKind) :
    (s.unexpected expected).kind.expected = expected := by
  unfold ParseState.unexpected
  split <;> rfl

/-- A token is refused at which the kind of the new token is not listed. -/
theorem unexpected {expected : List TokenKind} (h : ¬F.Lists expected)
    {r' : EStateM.Result Failure ParseState β} :
    F.Outcome Q (Parse.unexpected expected s) r' :=
  .refused fun _ => by rwa [kind_unexpected]

/-- A token in front of the fork is refused. -/
theorem unexpected_early {expected : List TokenKind} (h : s.Faces F.old v) (hv : v ≠ [])
    {r' : EStateM.Result Failure ParseState β} :
    F.Outcome Q (Parse.unexpected expected s) r' := by
  refine .refused fun hlength => ?_
  have hpos := List.length_pos_iff.mpr hv
  rw [h.length_ahead] at hlength
  omega

/-- Both parses pass the front, or end without passing anything. -/
theorem of_optional {b : β} {r r' : EStateM.Result Failure ParseState β} (h : F.Paired v s s')
    (hold : Clears F.strict F.old r ∨ r = .ok b s)
    (hnew : Clears F.strict F.new r' ∨ r' = .ok b s') (hb : Q v b) : F.Outcome Q r r' := by
  obtain hclears | rfl := hold
  · exact .cleared hclears
  · obtain hclears | rfl := hnew
    · exact .passed hclears
    · exact .both h hb

end Outcome

/-- In front of the fork both parses pass the same token. -/
theorem Beside.exists_advance {t : Token} (h : F.Beside (t :: v) s s') : ∃ s₁ s₁',
    Parse.advance s = .ok t s₁ ∧ Parse.advance s' = .ok t s₁' ∧ F.Beside v s₁ s₁' := by
  obtain ⟨s₁, hs₁, hfaces, hend, hdepth, htype⟩ := h.old.exists_advance
  obtain ⟨s₁', hs₁', hfaces', hend', hdepth', htype'⟩ := h.new.exists_advance
  refine ⟨s₁, s₁', hs₁, hs₁', hfaces, hfaces', hend'.trans hend.symm, ?_, ?_, ?_⟩
  · rw [hdepth, hdepth', h.groupDepth]
  · rw [htype, htype', h.inReturnType]
  · exact (List.suffix_cons t v).trans h.within

/-- What follows a token of an expected kind in front of the fork. -/
theorem Beside.expectOr_cases {t : Token} {kind : TokenKind} {expected : List TokenKind}
    (h : F.Beside (t :: v) s s') (ht : t.kind = kind) {f : Token → Parse β}
    (hf : ∀ s₁ s₁', F.Beside v s₁ s₁' → F.Outcome Q (f t s₁) (f t s₁')) :
    F.Outcome Q ((Parse.expectOr kind expected >>= f) s)
      ((Parse.expectOr kind expected >>= f) s') := by
  obtain ⟨s₁, s₁', hs₁, hs₁', hbeside⟩ := h.exists_advance
  unfold Parse.expectOr
  rw [bind_assoc, Parse.bind_currentKind, Parse.bind_currentKind, if_pos (h.old.current ▸ ht),
    if_pos (h.new.current ▸ ht), Parse.bind_of_ok hs₁, Parse.bind_of_ok hs₁']
  exact hf s₁ s₁' hbeside

/-- Behind a token there is no field, unless it is a point. -/
theorem Paired.exists_advance {t : Token} (h : F.Paired (t :: v) s s') (hapart : ¬F.AtField v) :
    ∃ s₁ s₁', Parse.advance s = .ok t s₁ ∧ Parse.advance s' = .ok t s₁' ∧ F.Paired v s₁ s₁' := by
  obtain ⟨s₁, s₁', hs₁, hs₁', hbeside⟩ := h.toBeside.exists_advance
  exact ⟨s₁, s₁', hs₁, hs₁', hbeside, hapart⟩

/-- A token of a kind is passed where both parses stand at one. At the fork one of them may stand at
one where the other one does not, and passes its front. -/
theorem Paired.advance_cases (h : F.Paired v s s') (kind : TokenKind)
    (hne : kind ≠ .eof ∧ kind ≠ .dot)
    {p p' : Prop} [Decidable p] [Decidable p'] (hp : p ↔ s.current.kind = kind)
    (hp' : p' ↔ s'.current.kind = kind) {f : Token → Parse β} {m m' : Parse β}
    [∀ t, Obeys (Forward (.anywhere F.strict)) (f t)]
    {P : EStateM.Result Failure ParseState β → EStateM.Result Failure ParseState β → Prop}
    (hparted : ∀ r r', F.Outcome Q r r' → P r r')
    (hboth : ∀ t w u u', v = t :: w → t.kind = kind → F.Paired w u u' → P (f t u) (f t u'))
    (hnone : s.current.kind ≠ kind → s'.current.kind ≠ kind → P (m s) (m' s')) :
    P ((if p then Parse.advance >>= f else m) s) ((if p' then Parse.advance >>= f else m') s') := by
  have hfront {front : Front} {u : ParseState} (hu : u.Faces front [])
      (hkind : u.current.kind = kind) : front.token.kind ≠ .eof :=
    hu.current_front ▸ hkind ▸ hne.1
  obtain ⟨rfl, hold⟩ | ⟨rfl, -, hnew⟩ | ⟨hv, hold, hnew⟩ | ⟨hold, hnew⟩ := h.kind_cases kind
  · rw [if_pos (hp.mpr hold)]
    exact hparted _ _ (.cleared (Clears.advance h.old (hfront h.old hold)).bind)
  · rw [if_pos (hp'.mpr hnew)]
    exact hparted _ _ (.passed (Clears.advance h.new (hfront h.new hnew)).bind)
  · rw [if_pos (hp.mpr hold), if_pos (hp'.mpr hnew)]
    obtain ⟨t, w, rfl⟩ := List.exists_cons_of_ne_nil hv
    have ht : t.kind = kind := h.current ▸ hold
    obtain ⟨u, u', hu, hu', hpair⟩ := h.exists_advance (h.not_atField (ht ▸ hne.2))
    rw [Parse.bind_of_ok hu, Parse.bind_of_ok hu']
    exact hboth t w u u' rfl ht hpair
  · rw [if_neg (mt hp.mp hold), if_neg (mt hp'.mp hnew)]
    exact hnone hold hnew

/-- In front of the fork both parses see the same token after the current one, or that of their
front. -/
theorem Paired.exists_peek {t : Token} (h : F.Paired (t :: v) s s') : ∃ s₁ s₁',
    Parse.peek s = .ok (v.headD F.old.token) s₁ ∧ Parse.peek s' = .ok (v.headD F.new.token) s₁' ∧
    F.Paired (t :: v) s₁ s₁' := by
  obtain ⟨s₁, hs₁, hfaces, hend, hdepth, htype⟩ := h.old.exists_peek
  obtain ⟨s₁', hs₁', hfaces', hend', hdepth', htype'⟩ := h.new.exists_peek
  refine ⟨s₁, s₁', hs₁, hs₁', ⟨hfaces, hfaces', ?_, ?_, ?_, h.within⟩, h.apart⟩
  · rw [hend, hend', h.lastEnd]
  · rw [hdepth, hdepth', h.groupDepth]
  · rw [htype, htype', h.inReturnType]

/-- A choice after which the front is passed. -/
theorem outcome_choice {p p' : Prop} [Decidable p] [Decidable p'] {m m₁ m₂ : Parse β}
    (hold : p → Clears F.strict F.old (m s)) (hnew : p' → Clears F.strict F.new (m s'))
    (h : F.Outcome Q (m₁ s) (m₂ s')) :
    F.Outcome Q ((if p then m else m₁) s) ((if p' then m else m₂) s') := by
  split
  · next hp => exact .cleared (hold hp)
  · split
    · next hp' => exact .passed (hnew hp')
    · exact h

/-- A token of a kind is passed. At the fork, an error that lists only that kind is true. -/
theorem outcome_expectOr {kind : TokenKind} {expected : List TokenKind}
    (hne : kind ≠ .eof ∧ kind ≠ .dot) (h : F.Paired v s s')
    (hexpected : v = [] → F.new.token.kind ≠ kind → ¬F.Lists expected) :
    F.Outcome Anything (Parse.expectOr kind expected s) (Parse.expectOr kind expected s') := by
  cases v with
  | nil =>
    by_cases hold : F.old.token.kind = kind
    · exact .cleared (.expectOr h.old hold hne.1)
    · by_cases hnew : F.new.token.kind = kind
      · exact .passed (.expectOr h.new hnew hne.1)
      · unfold Parse.expectOr
        rw [Parse.bind_currentKind, if_neg (h.old.current ▸ hold)]
        exact .unexpected (hexpected rfl hnew)
  | cons t v =>
    unfold Parse.expectOr
    rw [Parse.bind_currentKind, Parse.bind_currentKind, h.current_eq]
    split
    · next hkind =>
      have ht : t.kind = kind := h.current ▸ hkind
      obtain ⟨s₁, s₁', hs₁, hs₁', hpair⟩ := h.exists_advance (h.not_atField (ht ▸ hne.2))
      rw [hs₁, hs₁']
      exact .both hpair trivial
    · exact .unexpected_early h.old (List.cons_ne_nil t v)

/-! ## Steps -/

/-- A step that passes no token and has the same value in both parses. If `early` is set, it is
taken in front of the fork, and not at a point. -/
class Still (F : Fork) (early : Bool) (m : Parse β) : Prop where
  pair : ∀ {v : List Token} {s s' : ParseState}, F.Paired v s s' → (early = true → Inside v) →
    ∃ b t t', m s = .ok b t ∧ m s' = .ok b t' ∧ F.Paired v t t'

/-- A step whose results in both parses belong together. If `early` is set, it is taken in front of
the fork, and not at a point. -/
class Keeps (F : Fork) (early : Bool) (m : Parse β) : Prop where
  outcome : ∀ {v : List Token} {s s' : ParseState}, F.Paired v s s' → (early = true → Inside v) →
    F.Outcome Anything (m s) (m s')

namespace Still

variable {early : Bool}

instance pure {b : β} : F.Still early (Pure.pure b : Parse β) where
  pair h _ := ⟨b, _, _, rfl, rfl, h⟩

instance record {event : Event} : F.Still early (Parse.record event) where
  pair h _ := ⟨(), _, _, rfl, rfl, h.record event⟩

instance spanFrom {start : Position} : F.Still early (Parse.spanFrom start) where
  pair {v s s'} h _ := by
    refine ⟨s.spanFrom start, s, s', rfl, ?_, h⟩
    rw [← h.spanFrom start]
    rfl

instance setInReturnType {value : Bool} : F.Still early (Parse.setInReturnType value) where
  pair {v s s'} h _ := by
    refine ⟨s.inReturnType, { s with inReturnType := value }, { s' with inReturnType := value },
      rfl, ?_, h.congr rfl rfl rfl rfl h.lastEnd h.groupDepth rfl⟩
    rw [← h.inReturnType]
    rfl

instance enterBlock : F.Still early Parse.enterBlock where
  pair {v s s'} h _ := by
    refine ⟨s.groupDepth, { s with groupDepth := 0 }, { s' with groupDepth := 0 }, rfl, ?_,
      h.congr rfl rfl rfl rfl h.lastEnd rfl h.inReturnType⟩
    rw [← h.groupDepth]
    rfl

/-- In front of the fork both parses see the same token. -/
instance current : F.Still true Parse.current where
  pair {v s s'} h hv := by
    refine ⟨s.current, s, s', rfl, ?_, h⟩
    obtain ⟨t, w, rfl, -⟩ := hv rfl
    rw [← h.current_eq]
    rfl

end Still

/-- Results in front of the fork. -/
theorem outcome_early {m : Parse β} [hm : F.Keeps true m] {t : Token}
    (h : F.Paired (t :: v) s s') (ht : t.kind ≠ .dot) : F.Outcome Anything (m s) (m s') :=
  hm.outcome h fun _ => ⟨t, v, rfl, ht⟩

/-- Results wherever both parses are. -/
theorem outcome_keeps {m : Parse β} [hm : F.Keeps false m] (h : F.Paired v s s') :
    F.Outcome Anything (m s) (m s') :=
  hm.outcome h nofun

/-- What follows a look at the token after the current one. -/
theorem outcome_peek {f : Token → Parse γ} {t : Token} [hf : ∀ u, F.Keeps true (f u)]
    (h : F.Paired (t :: v) s s') (ht : t.kind ≠ .dot)
    (hfork : ∀ s₁ s₁', F.Paired [t] s₁ s₁' →
      F.Outcome Anything (f F.old.token s₁) (f F.new.token s₁')) :
    F.Outcome Anything ((Parse.peek >>= f) s) ((Parse.peek >>= f) s') := by
  obtain ⟨s₁, s₁', hs₁, hs₁', hpair⟩ := h.exists_peek
  rw [Parse.bind_of_ok hs₁, Parse.bind_of_ok hs₁']
  cases v with
  | nil => exact hfork s₁ s₁' hpair
  | cons u v => exact outcome_early hpair ht

namespace Keeps

variable {early : Bool}

instance (priority := high) still {m : Parse β} {f : β → Parse γ} [hm : F.Still early m]
    [hf : ∀ b, F.Keeps early (f b)] : F.Keeps early (m >>= f) where
  outcome h hv := by
    obtain ⟨b, t, t', hb, hb', hpair⟩ := hm.pair h hv
    rw [Parse.bind_of_ok hb, Parse.bind_of_ok hb']
    exact (hf b).outcome hpair hv

/-- After a step both parses may stand at the fork. -/
instance bind {m : Parse β} {f : β → Parse γ} [hm : F.Keeps early m]
    [hf : ∀ b, F.Keeps false (f b)] [∀ b, Obeys (Forward (.anywhere F.strict)) (f b)] :
    F.Keeps early (m >>= f) where
  outcome h hv := (hm.outcome h hv).bind fun b _ _ _ hpair _ => (hf b).outcome hpair nofun

instance map {m : Parse β} {g : β → γ} [hm : F.Keeps early m] : F.Keeps early (g <$> m) where
  outcome h hv := (hm.outcome h hv).map fun _ _ => id

instance pure {b : β} : F.Keeps early (Pure.pure b : Parse β) where
  outcome h _ := .both h trivial

instance ite {p : Prop} [Decidable p] {m m' : Parse β} [F.Keeps early m] [F.Keeps early m'] :
    F.Keeps early (if p then m else m') := by
  split <;> infer_instance

instance exhausted : F.Keeps early (throw .exhausted : Parse β) where
  outcome _ _ := .exhausted

instance unexpected {expected : List TokenKind} :
    F.Keeps true (Parse.unexpected expected : Parse β) where
  outcome h hv := by
    obtain ⟨t, w, rfl, -⟩ := hv rfl
    exact .unexpected_early h.old (List.cons_ne_nil t w)

instance expect {kind : TokenKind} [hne : Fact (kind ≠ .eof ∧ kind ≠ .dot)] :
    F.Keeps early (Parse.expect kind) where
  outcome h _ := outcome_expectOr hne.out h fun _ hnew hlists =>
    hnew (List.mem_singleton.mp hlists.1)

/-- In front of the fork both parses pass the same token. -/
instance advance : F.Keeps true Parse.advance where
  outcome {v s s'} h hv := by
    obtain ⟨t, w, rfl, ht⟩ := hv rfl
    obtain ⟨s₁, s₁', hs₁, hs₁', hpair⟩ := h.exists_advance (h.not_atField ht)
    rw [hs₁, hs₁']
    exact .both hpair trivial

end Keeps

end Fork

end SurfaceGrammar

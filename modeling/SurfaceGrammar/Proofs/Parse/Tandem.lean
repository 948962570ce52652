import SurfaceGrammar.Proofs.Parse.Step
import SurfaceGrammar.Proofs.Tree.Nodes

/-!
# Two parses of the same tokens

Two descents over the same tokens are taken side by side: with other numbers of levels, with
other tokens behind the one for the end, and with branches that only one of them asks for. As long
as neither fails they are in the same state and have the same results. The one way to come apart
is that the stricter of them misses a branch; what the other one makes in the end then has the
conditional without that branch among its nodes. On the way the tokens that are left are counted.

* `Comparison`: in which ways two parses may differ.
* `TokenStream.Alike`, `ParseState.Alike`: the same tokens up to the one for the end.
* `Node.Lacks`: a conditional without a branch for the other case, at or below a node.
* `Gives`: what holds of every result of a step.
* `Tandem`: results of two parses that belong together.
* `Tandem.bind`, `Tandem.step`: two steps, one after the other, on both sides.
-/

namespace SurfaceGrammar

/-- In which ways two parses of the same tokens may differ. -/
structure Comparison where
  /-- The second one asks for branches for which the first one does not ask. -/
  stricter : Prop
  /-- For the second one, more follows behind the token for the end. -/
  longer : Prop

/-- Two parses that differ in nothing of this. -/
def Comparison.same : Comparison := ⟨False, False⟩

/-! ## Streams and states -/

/-- Two streams from which the same is read up to the token for the end. -/
inductive TokenStream.Alike (K : Comparison) : TokenStream → TokenStream → Prop
  | refl (stream : TokenStream) : Alike K stream stream
  | longer (h : K.longer) (ts more : List Token) (stop : Token) (ending : Except Error Token) :
    Alike K ⟨ts, .ok stop⟩ ⟨ts ++ stop :: more, ending⟩

/-- What is read from both streams. -/
theorem TokenStream.Alike.read {K : Comparison} {stream stream' : TokenStream}
    (h : stream.Alike K stream') (hending : ∀ t, stream.ending = .ok t → t.kind = .eof) :
    (∃ t rest rest', stream.read = .ok (t, rest) ∧ stream'.read = .ok (t, rest') ∧
      (rest.Alike K rest' ∨ K.longer ∧ t.kind = .eof)) ∨
    ∃ e, stream.read = .error e ∧ stream'.read = .error e := by
  cases h with
  | refl =>
    cases hread : stream.read with
    | error e => exact .inr ⟨e, rfl, rfl⟩
    | ok first => exact .inl ⟨first.1, first.2, first.2, rfl, rfl, .inl (.refl _)⟩
  | longer h ts more stop ending =>
    cases ts with
    | nil => exact .inl ⟨stop, _, _, rfl, rfl, .inr ⟨h, hending stop rfl⟩⟩
    | cons t ts => exact .inl ⟨t, _, _, rfl, rfl, .inl (.longer h ts more stop ending)⟩

namespace ParseState

/-- Two states that differ at most behind the token for the end. -/
structure Alike (K : Comparison) (s s' : ParseState) : Prop where
  placed : s.Placed
  current : s'.current = s.current
  upcoming : s.upcoming.Alike K s'.upcoming ∨ K.longer ∧ s.current.kind = .eof
  peeked : s'.peeked = s.peeked
  lastEnd : s'.lastEnd = s.lastEnd
  groupDepth : s'.groupDepth = s.groupDepth
  inReturnType : s'.inReturnType = s.inReturnType
  events : s'.events = s.events

namespace Alike

variable {K : Comparison} {s s' : ParseState}

theorem refl (hs : s.Placed) : s.Alike K s :=
  ⟨hs, rfl, .inl (.refl _), rfl, rfl, rfl, rfl, rfl⟩

/-- States that may not differ in anything. -/
theorem eq (h : s.Alike .same s') : s' = s := by
  obtain ⟨-, hcurrent, hupcoming, hpeeked, hlastEnd, hdepth, htype, hevents⟩ := h
  obtain ⟨upcoming, peeked, current, lastEnd, depth, returnType, events⟩ := s
  obtain ⟨upcoming', peeked', current', lastEnd', depth', returnType', events'⟩ := s'
  obtain hstream | ⟨hlonger, -⟩ := hupcoming
  · cases hstream with
    | refl => simp_all
    | longer hlonger => exact hlonger.elim
  · exact hlonger.elim

/-- What is read from alike states, unless the end was reached. -/
theorem read (h : s.Alike K s') (hne : s.current.kind ≠ .eof) :
    (∃ t rest rest', s.upcoming.read = .ok (t, rest) ∧ s'.upcoming.read = .ok (t, rest') ∧
      (rest.Alike K rest' ∨ K.longer ∧ t.kind = .eof)) ∨
    ∃ e, s.upcoming.read = .error e ∧ s'.upcoming.read = .error e := by
  obtain hstream | ⟨-, heof⟩ := h.upcoming
  · exact hstream.read h.placed.ending
  · exact absurd heof hne

theorem atLineBreak (h : s.Alike K s') : s'.atLineBreak = s.atLineBreak := by
  simp only [ParseState.atLineBreak, h.groupDepth, h.current]

theorem spanFrom (h : s.Alike K s') (start : Position) : s'.spanFrom start = s.spanFrom start := by
  simp only [ParseState.spanFrom, h.lastEnd]

theorem position (h : s.Alike K s') : s'.position = s.position := by
  simp only [ParseState.position, h.current]

theorem unexpected (h : s.Alike K s') (expected : List TokenKind) :
    s'.unexpected expected = s.unexpected expected := by
  simp only [ParseState.unexpected, ParseState.position, h.current]

theorem record (h : s.Alike K s') (event : Event) :
    Alike K { s with events := s.events.push event }
      { s' with events := s'.events.push event } where
  placed := h.placed.congr rfl rfl
  current := h.current
  upcoming := h.upcoming
  peeked := h.peeked
  lastEnd := h.lastEnd
  groupDepth := h.groupDepth
  inReturnType := h.inReturnType
  events := by rw [h.events]

/-- Alike states in another context. -/
theorem within (h : s.Alike K s') (depth : Nat) (returnType : Bool) :
    Alike K { s with groupDepth := depth, inReturnType := returnType }
      { s' with groupDepth := depth, inReturnType := returnType } where
  placed := h.placed.congr rfl rfl
  current := h.current
  upcoming := h.upcoming
  peeked := h.peeked
  lastEnd := h.lastEnd
  groupDepth := rfl
  inReturnType := rfl
  events := h.events

theorem withDepth (h : s.Alike K s') (depth : Nat) :
    Alike K { s with groupDepth := depth } { s' with groupDepth := depth } := by
  have hwithin := h.within depth s.inReturnType
  have hrest : { s' with groupDepth := depth, inReturnType := s.inReturnType } =
      { s' with groupDepth := depth } := by
    rw [← h.inReturnType]
  rwa [hrest] at hwithin

theorem withReturnType (h : s.Alike K s') (returnType : Bool) :
    Alike K { s with inReturnType := returnType } { s' with inReturnType := returnType } := by
  have hwithin := h.within s.groupDepth returnType
  have hrest : { s' with groupDepth := s.groupDepth, inReturnType := returnType } =
      { s' with inReturnType := returnType } := by
    rw [← h.groupDepth]
  rwa [hrest] at hwithin

end Alike

end ParseState

/-! ## Missing branches -/

/-- A conditional without a branch for the other case that starts at the position is the node or
stands below it. -/
inductive Node.Lacks (p : Position) : Node → Prop
  | here {condition thenBranch : Expr Span} {span : Span} (start : span.start = p) :
    Lacks p (.expr (.conditional condition thenBranch none span))
  | child {n c : Node} (mem : c ∈ n.children) (lacks : Lacks p c) : Lacks p n

/-- One of the nodes of a result lacks a branch. -/
def LacksIn {β : Type} (nodes : β → List Node) (p : Position) (b : β) : Prop :=
  ∃ n ∈ nodes b, n.Lacks p

namespace LacksIn

variable {β γ : Type} {nodes : β → List Node} {nodes' : γ → List Node} {p : Position} {b : β}
  {c : γ}

/-- What a node below lacks, the result lacks. -/
theorem below (h : LacksIn nodes p b) {n : Node} (hn : n ∈ nodes' c)
    (hchildren : ∀ x ∈ nodes b, x ∈ n.children) : LacksIn nodes' p c := by
  obtain ⟨x, hx, hlacks⟩ := h
  exact ⟨n, hn, .child (hchildren x hx) hlacks⟩

theorem mono (h : LacksIn nodes p b) (hsub : ∀ x ∈ nodes b, x ∈ nodes' c) :
    LacksIn nodes' p c := by
  obtain ⟨x, hx, hlacks⟩ := h
  exact ⟨x, hsub x hx, hlacks⟩

end LacksIn

/-- A conditional without a branch that is a node of a module, or stands below one. -/
theorem Module.HasNode.exists_of_lacks {m : Module} {n : Node} {p : Position} (h : m.HasNode n)
    (hlacks : n.Lacks p) : ∃ condition thenBranch span, span.start = p ∧
      m.HasNode (.expr (.conditional condition thenBranch none span)) := by
  induction hlacks with
  | here start => exact ⟨_, _, _, start, h⟩
  | child mem _ ih => exact ih (h.child mem)

/-! ## What a step gives -/

/-- Whatever a step gives, `P` holds of it. -/
def Gives {β : Type} (m : Parse β) (P : β → Prop) : Prop :=
  ∀ ⦃s : ParseState⦄ ⦃b : β⦄ ⦃s' : ParseState⦄, m s = .ok b s' → P b

namespace Gives

variable {β γ : Type} {P : β → Prop} {Q : γ → Prop}

theorem pure {b : β} (h : P b) : Gives (Pure.pure b) P := by
  intro s c s' hc
  cases hc
  exact h

theorem bind {m : Parse β} {f : β → Parse γ} (h : ∀ b, Gives (f b) Q) :
    Gives (m >>= f) Q := by
  intro s c s' hc
  obtain ⟨b, s₁, -, hf⟩ := Parse.ok_of_bind hc
  exact h b hf

/-- Two steps of which the second one needs what the first one gives. -/
theorem seq {m : Parse β} {f : β → Parse γ} (hm : Gives m P) (h : ∀ b, P b → Gives (f b) Q) :
    Gives (m >>= f) Q := by
  intro s c s' hc
  obtain ⟨b, s₁, hb, hf⟩ := Parse.ok_of_bind hc
  exact h b (hm hb) hf

theorem ite {p : Prop} [Decidable p] {m m' : Parse β} (h : Gives m P) (h' : Gives m' P) :
    Gives (if p then m else m') P := by
  split
  · exact h
  · exact h'

theorem unexpected {expected : List TokenKind} : Gives (Parse.unexpected expected) P :=
  fun _ _ _ h => absurd h Parse.unexpected_ne_ok

end Gives

/-! ## Results -/

/-- Results of two parses that belong together: the same value in alike states with fewer than `n`
tokens left, or the same error. If the second parse is the stricter one, it may also miss a branch
that the result of the first one lacks, if it has a result. -/
inductive Tandem (K : Comparison) {β : Type} (lacks : Position → β → Prop) (n : Nat) :
    EStateM.Result Failure ParseState β → EStateM.Result Failure ParseState β → Prop
  | ok {b : β} {s s' : ParseState} (alike : s.Alike K s') (fewer : s.ahead.length < n) :
    Tandem K lacks n (.ok b s) (.ok b s')
  | error {e : Error} {s s' : ParseState} (alike : s.Alike K s') :
    Tandem K lacks n (.error (.error e) s) (.error (.error e) s')
  | lacking {r : EStateM.Result Failure ParseState β} {p : Position} {s' : ParseState}
    (strict : K.stricter) (result : ∀ b s, r = .ok b s → lacks p b) :
    Tandem K lacks n r (.error (.error ⟨.missingElseBranch, p⟩) s')

/-- Nothing is lacking in a result without nodes. -/
def lacksNothing {β : Type} (_ : Position) (_ : β) : Prop := False

variable {K : Comparison} {β γ : Type} {lacks : Position → β → Prop}
  {lacks' : Position → γ → Prop} {n k : Nat} {s s' : ParseState}

namespace Tandem

/-- Two steps, one after the other. What the result of the first one lacks, that of the second one
lacks as well. -/
theorem bind {m m' : Parse β} {f f' : β → Parse γ} (h : Tandem K lacks n (m s) (m' s'))
    (hlacks : ∀ p b, lacks p b → Gives (f b) (lacks' p))
    (hf : ∀ b t t', t.Alike K t' → t.ahead.length < n →
      Tandem K lacks' k (f b t) (f' b t')) :
    Tandem K lacks' k ((m >>= f) s) ((m' >>= f') s') := by
  have hresult : ∀ c t, (m >>= f) s = .ok c t →
      ∃ b u, m s = .ok b u ∧ ∀ p, lacks p b → lacks' p c := by
    intro c t hc
    obtain ⟨b, u, hm, hfb⟩ := Parse.ok_of_bind hc
    exact ⟨b, u, hm, fun p hp => hlacks p b hp hfb⟩
  revert hresult
  change (∀ c t, EStateM.bind m f s = .ok c t → _) →
    Tandem K lacks' k (EStateM.bind m f s) (EStateM.bind m' f' s')
  unfold EStateM.bind
  generalize m s = r at h
  generalize m' s' = r' at h
  intro hresult
  cases h with
  | ok alike fewer => exact hf _ _ _ alike fewer
  | error alike => exact .error alike
  | lacking strict result =>
    refine .lacking strict fun c t hc => ?_
    obtain ⟨b, u, hb, hlacks⟩ := hresult c t hc
    exact hlacks _ (result b u hb)

/-- A step whose result has no nodes, and then another one. -/
theorem step {m m' : Parse β} {f f' : β → Parse γ}
    (h : Tandem K lacksNothing n (m s) (m' s'))
    (hf : ∀ b t t', t.Alike K t' → t.ahead.length < n →
      Tandem K lacks' k (f b t) (f' b t')) :
    Tandem K lacks' k ((m >>= f) s) ((m' >>= f') s') :=
  h.bind (fun _ _ => False.elim) hf

theorem map {m m' : Parse β} {g : β → γ} (h : Tandem K lacks n (m s) (m' s'))
    (hlacks : ∀ p b, lacks p b → lacks' p (g b)) :
    Tandem K lacks' n ((g <$> m) s) ((g <$> m') s') := by
  change Tandem K lacks' n (EStateM.map g m s) (EStateM.map g m' s')
  unfold EStateM.map
  generalize m s = r at h
  generalize m' s' = r' at h
  cases h with
  | ok alike fewer => exact .ok alike fewer
  | error alike => exact .error alike
  | lacking strict result =>
    refine .lacking strict fun c t hc => ?_
    split at hc
    · cases hc
      exact hlacks _ _ (result _ _ rfl)
    · cases hc

/-- More tokens may be left than there are. -/
theorem weaken {m m' : Parse β} (h : Tandem K lacks n (m s) (m' s')) (hn : n ≤ k) :
    Tandem K lacks k (m s) (m' s') := by
  generalize m s = r at h
  generalize m' s' = r' at h
  cases h with
  | ok alike fewer => exact .ok alike (Nat.lt_of_lt_of_le fewer hn)
  | error alike => exact .error alike
  | lacking strict result => exact .lacking strict result

/-- Parses that may not differ in anything have the same results. -/
theorem eq {r r' : EStateM.Result Failure ParseState β} (h : Tandem .same lacks n r r') :
    r' = r := by
  cases h with
  | ok alike _ => rw [alike.eq]
  | error alike => rw [alike.eq]
  | lacking strict _ => exact strict.elim

/-- The second parse never reaches a bound. -/
theorem ne_exhausted {r r' : EStateM.Result Failure ParseState β} (h : Tandem K lacks n r r')
    (s : ParseState) : r' ≠ .error .exhausted s := by
  rintro rfl
  cases h

end Tandem

/-! ## Steps -/

namespace Parse

theorem tandem_fail (e : Error) (h : s.Alike K s') :
    Tandem K lacks n (fail e s) (fail e s') :=
  .error h

theorem tandem_unexpected (expected : List TokenKind) (h : s.Alike K s') :
    Tandem K lacks n (unexpected expected s) (unexpected expected s') := by
  have hsame : unexpected expected s' = (fail (s.unexpected expected) : Parse β) s' := by
    rw [← h.unexpected]
    rfl
  rw [hsame]
  exact tandem_fail _ h

theorem tandem_advance (h : s.Alike K s') (hne : s.current.kind ≠ .eof) :
    Tandem K lacksNothing s.ahead.length (advance s) (advance s') := by
  have hpass {t : Token} {s₁ : ParseState} (hadvance : advance s = .ok t s₁) :=
    (passes_of_advance h.placed hne hadvance).2
  unfold advance at hpass ⊢
  obtain ⟨t, rest, rest', hread, hread', hrest⟩ | ⟨e, hread, hread'⟩ :=
    h.read hne
  · rw [hread] at hpass ⊢
    rw [hread', h.current, h.peeked, h.events]
    have hpass := hpass rfl
    refine .ok ⟨hpass.placed, rfl, hrest, rfl, rfl, h.groupDepth, h.inReturnType, rfl⟩ ?_
    rw [hpass.ahead]
    exact Nat.lt_succ_self _
  · rw [hread, hread']
    exact .error h

theorem tandem_advance_kind {kind : TokenKind} (h : s.Alike K s') (hkind : s.current.kind = kind)
    (hne : kind ≠ .eof) :
    Tandem K lacksNothing s.ahead.length (advance s) (advance s') :=
  tandem_advance h (hkind ▸ hne)

theorem tandem_expectOr {kind : TokenKind} (expected : List TokenKind) (h : s.Alike K s')
    (hne : kind ≠ .eof) :
    Tandem K lacksNothing s.ahead.length (expectOr kind expected s)
      (expectOr kind expected s') := by
  unfold expectOr
  rw [bind_currentKind, bind_currentKind, h.current]
  split
  · next hkind => exact tandem_advance_kind h hkind hne
  · exact tandem_unexpected expected h

theorem tandem_expect {kind : TokenKind} (h : s.Alike K s') (hne : kind ≠ .eof) :
    Tandem K lacksNothing s.ahead.length (expect kind s) (expect kind s') :=
  tandem_expectOr [kind] h hne

/-- Something is recorded, and then comes another step. -/
theorem tandem_record {f f' : Unit → Parse γ} (event : Event) (h : s.Alike K s')
    (hf : ∀ u u', u.Alike K u' → u.ahead = s.ahead → Tandem K lacks' n (f () u) (f' () u')) :
    Tandem K lacks' n ((record event >>= f) s) ((record event >>= f') s') :=
  hf _ _ (h.record event) rfl

/-- A look at the token after the current one, and then another step. -/
theorem tandem_peek {f f' : Token → Parse γ} (h : s.Alike K s') (hne : s.current.kind ≠ .eof)
    (hf : ∀ t u u', u.Alike K u' → u.current = s.current → u.ahead = s.ahead →
      Tandem K lacks' n (f t u) (f' t u')) :
    Tandem K lacks' n ((peek >>= f) s) ((peek >>= f') s') := by
  change Tandem K lacks' n (EStateM.bind peek f s) (EStateM.bind peek f' s')
  unfold EStateM.bind peek
  obtain ⟨t, rest, rest', hread, hread', -⟩ | ⟨e, hread, hread'⟩ :=
    h.read hne
  · rw [hread, hread']
    dsimp only
    rw [h.peeked]
    cases s.peeked with
    | true => exact hf t s s' h rfl rfl
    | false =>
      refine hf t _ _ ?_ rfl rfl
      exact ⟨h.placed.congr rfl rfl, h.current, h.upcoming, rfl, h.lastEnd, h.groupDepth,
        h.inReturnType, by rw [h.events]⟩
  · rw [hread, hread']
    exact .error h

/-- A step after which a block is left. -/
theorem tandem_exitBlock {m m' : Parse β} (depth : Nat)
    (h : Tandem K lacks n (m s) (m' s')) :
    Tandem K lacks n (andFinally m (exitBlock depth) s)
      (andFinally m' (exitBlock depth) s') := by
  have hresult : ∀ b t, andFinally m (exitBlock depth) s = .ok b t → ∃ u, m s = .ok b u := by
    intro b t hb
    obtain ⟨u, hu, -⟩ := ok_of_exitBlock hb
    exact ⟨u, hu⟩
  revert hresult
  unfold andFinally
  generalize m s = r at h
  generalize m' s' = r' at h
  intro hresult
  cases h with
  | ok alike fewer => exact .ok (alike.withDepth depth) fewer
  | error alike => exact .error (alike.withDepth depth)
  | lacking strict result =>
    refine .lacking strict fun b t hb => ?_
    obtain ⟨u, hu⟩ := hresult b t hb
    exact result b u hu

end Parse

end SurfaceGrammar

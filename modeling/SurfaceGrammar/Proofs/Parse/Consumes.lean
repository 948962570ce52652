import SurfaceGrammar.Proofs.Parse.Step

/-!
# Steps in front of given tokens

A production that succeeds wherever certain tokens lie ahead in certain surroundings is put together
from steps of which the same holds. The state in which a step is taken does not matter, so it is
not mentioned.

* `Reaches`: at a state, a step succeeds and passes the given tokens.
* `Looks`: wherever the given tokens lie ahead, a step looks at them and passes none.
* `Consumes`: wherever the given tokens lie ahead, a step passes them.
* `Consumes.bind`: two steps, one after the other.
* `Consumes.advance`, `Consumes.expect`: single tokens.
* `Consumes.of_look`, `Consumes.of_current`, `Consumes.of_standsAt` and others: behind a step that
  passes nothing.
-/

namespace SurfaceGrammar

open Lookahead

/-- The step succeeds, passes the tokens `ts` and gives a result of which `P` holds. -/
def Reaches {β : Type} (m : Parse β) (s : ParseState) (ts : List Token) (P : β → Prop) : Prop :=
  ∃ b s', m s = .ok b s' ∧ P b ∧ s.Passes ts s'

namespace Reaches

variable {β γ : Type} {m : Parse β} {f : β → Parse γ} {P : β → Prop} {Q : γ → Prop}
  {s : ParseState} {ts us : List Token} {u : Token}

theorem pure {b : β} (hs : s.Placed) (hb : P b) : Reaches (Pure.pure b) s [] P :=
  ⟨b, s, rfl, hb, .refl hs⟩

/-- Two steps, one after the other. -/
theorem bind (h : Reaches m s ts P)
    (h' : ∀ b s₁, P b → s.Passes ts s₁ → Reaches (f b) s₁ us Q) :
    Reaches (m >>= f) s (ts ++ us) Q := by
  obtain ⟨b, s₁, hm, hb, hpass⟩ := h
  obtain ⟨d, s₂, hf, hd, hpass'⟩ := h' b s₁ hb hpass
  exact ⟨d, s₂, (Parse.bind_of_ok hm).trans hf, hd, hpass.trans hpass'⟩

/-- A step that passes one token, and then another step. -/
theorem cons (h : Reaches m s [u] P)
    (h' : ∀ b s₁, P b → s.Passes [u] s₁ → Reaches (f b) s₁ us Q) :
    Reaches (m >>= f) s (u :: us) Q :=
  h.bind h'

/-- A step that passes no token, and then another step. -/
theorem skip (h : Reaches m s [] P)
    (h' : ∀ b s₁, P b → s.Passes [] s₁ → Reaches (f b) s₁ us Q) :
    Reaches (m >>= f) s us Q :=
  h.bind h'

theorem map {g : β → γ} (h : Reaches m s ts P) (hg : ∀ b, P b → Q (g b)) :
    Reaches (g <$> m) s ts Q := by
  obtain ⟨b, s₁, hm, hb, hpass⟩ := h
  exact ⟨g b, s₁, Parse.map_of_ok hm, hg b hb, hpass⟩

theorem mono {P' : β → Prop} (h : Reaches m s ts P) (hP : ∀ b, P b → P' b) :
    Reaches m s ts P' := by
  obtain ⟨b, s₁, hm, hb, hpass⟩ := h
  exact ⟨b, s₁, hm, hP b hb, hpass⟩

/-- A step that does at a state what another one does. -/
theorem of_eq {m' : Parse β} (h : m s = m' s) (h' : Reaches m' s ts P) : Reaches m s ts P := by
  obtain ⟨b, s₁, hm, hb, hpass⟩ := h'
  exact ⟨b, s₁, h.trans hm, hb, hpass⟩

end Reaches

/-- In the surroundings `c` the step passes no token if `ts` lies ahead and `r` behind them, and it
gives a result of which `P` holds. -/
def Looks {β : Type} (m : Parse β) (c : Surroundings) (ts r : List Token) (P : β → Prop) : Prop :=
  ∀ s : ParseState, s.ReadyFor r → s.surroundings = c → s.ahead = ts ++ r → Reaches m s [] P

namespace Looks

variable {β γ : Type} {m : Parse β} {P : β → Prop} {Q : γ → Prop} {c : Surroundings}
  {t : Token} {ts us r : List Token}

theorem pure {b : β} (hb : P b) : Looks (Pure.pure b) c ts r P :=
  fun _ hs _ _ => .pure hs.toPlaced hb

theorem bind {f : β → Parse γ} (h : Looks m c ts r P) (h' : ∀ b, P b → Looks (f b) c ts r Q) :
    Looks (m >>= f) c ts r Q := fun s hs hc hahead =>
  (h s hs hc hahead).bind fun b s₁ hb hpass =>
    h' b hb s₁ (hpass.readyFor hs) (hpass.surroundings.trans hc) (hpass.ahead_eq hahead)

theorem current (hts : ts ++ r = t :: us) : Looks Parse.current c ts r (· = t) :=
  fun s hs _ hahead =>
    ⟨s.current, s, rfl, ParseState.current_of_ahead (hahead.trans hts), .refl hs.toPlaced⟩

/-- The current token is the next one, or the one for the end. -/
theorem sees_current : Looks Parse.current c ts r (Sees · (ts ++ r)) :=
  fun s hs _ hahead => ⟨s.current, s, rfl, hahead ▸ s.sees_current, .refl hs.toPlaced⟩

theorem currentKind : Looks Parse.currentKind c ts r (· = kind (ts ++ r)) :=
  fun s hs _ hahead =>
    ⟨s.current.kind, s, rfl, by rw [← hahead, ParseState.kind_ahead], .refl hs.toPlaced⟩

theorem standsAt (close : TokenKind) :
    Looks (Parse.standsAt close) c ts r (· = decide (kind (ts ++ r) = close)) :=
  fun s hs _ hahead =>
    ⟨decide (s.current.kind = close), s, rfl, by rw [← hahead, ParseState.kind_ahead],
      .refl hs.toPlaced⟩

theorem record (event : Event) : Looks (Parse.record event) c ts r fun _ => True :=
  fun _ hs _ _ => ⟨(), _, rfl, trivial, ⟨rfl, rfl, rfl, rfl, hs.toPlaced.congr rfl rfl⟩⟩

theorem spanFrom (start : Position) : Looks (Parse.spanFrom start) c ts r fun _ => True :=
  fun s hs _ _ => ⟨s.spanFrom start, s, rfl, trivial, .refl hs.toPlaced⟩

/-- Before a token it is known whether a line break ends an expression. -/
theorem atLineBreak (hts : ts ++ r = t :: us) :
    Looks Parse.atLineBreak c ts r (· = breaks c [t]) := fun s hs hc hahead =>
  ⟨s.atLineBreak, s, rfl, by
    rw [ParseState.atLineBreak_eq, hc, ParseState.current_of_ahead (hahead.trans hts)],
    .refl hs.toPlaced⟩

/-- Where no line break ends an expression, none stands before the next token, or it means
nothing. -/
theorem breaks :
    Looks Parse.atLineBreak c ts r fun b => b = false → breaks c (ts ++ r) = false := by
  intro s hs hc hahead
  refine ⟨s.atLineBreak, s, rfl, fun hbreak => ?_, .refl hs.toPlaced⟩
  rw [← hahead]
  obtain ⟨hnil, -⟩ | ⟨rest, hrest⟩ := s.sees_current
  · rw [hnil, Lookahead.breaks, isOnNewLine, Bool.and_false]
  · rw [ParseState.atLineBreak_eq, hc] at hbreak
    rw [hrest]
    exact hbreak

/-- A look at what stands behind a token. -/
theorem peek : Looks Parse.peek c (t :: ts) r (Sees · (ts ++ r)) := by
  intro s hs _ hahead
  obtain ⟨-, next, rest, hread⟩ := (hs.append ts).exists_read hahead
  obtain ⟨u, s', hpeek, hpass, hsees, -⟩ := Parse.exists_peek hs.toPlaced hread
  rw [hahead] at hsees
  exact ⟨u, s', hpeek, hsees, hpass⟩

end Looks

/-- In the surroundings `c` the step passes the tokens `ts` if they lie ahead and `r` behind them,
and it gives a result of which `P` holds. Of what stands behind the tokens only the first token has
to be readable, or the end of the source. -/
def Consumes {β : Type} (m : Parse β) (c : Surroundings) (ts r : List Token) (P : β → Prop) :
    Prop :=
  ∀ s : ParseState, s.ReadyFor r → s.surroundings = c → s.ahead = ts ++ r → Reaches m s ts P

namespace Consumes

variable {β γ : Type} {m : Parse β} {P : β → Prop} {Q : γ → Prop} {c : Surroundings}
  {t : Token} {ts us r : List Token}

theorem pure {b : β} (hb : P b) : Consumes (Pure.pure b) c [] r P :=
  fun _ hs _ _ => .pure hs.toPlaced hb

/-- Two steps, one after the other. -/
theorem bind {f : β → Parse γ} (h : Consumes m c ts (us ++ r) P)
    (h' : ∀ b, P b → Consumes (f b) c us r Q) : Consumes (m >>= f) c (ts ++ us) r Q := by
  intro s hs hc hahead
  rw [List.append_assoc] at hahead
  refine .bind (h s (hs.append us) hc hahead) fun b s₁ hb hpass => ?_
  exact h' b hb s₁ (hpass.readyFor hs) (hpass.surroundings.trans hc) (hpass.ahead_eq hahead)

/-- A step that passes one token, and then another step. -/
theorem cons {f : β → Parse γ} (h : Consumes m c [t] (us ++ r) P)
    (h' : ∀ b, P b → Consumes (f b) c us r Q) : Consumes (m >>= f) c (t :: us) r Q :=
  h.bind h'

/-- A step after which no token is passed. -/
theorem last {f : β → Parse γ} (h : Consumes m c ts r P)
    (h' : ∀ b, P b → Consumes (f b) c [] r Q) : Consumes (m >>= f) c ts r Q := by
  have hboth : Consumes (m >>= f) c (ts ++ []) r Q := bind h h'
  rwa [List.append_nil] at hboth

theorem mono {P' : β → Prop} (h : Consumes m c ts r P) (hP : ∀ b, P b → P' b) :
    Consumes m c ts r P' :=
  fun s hs hc hahead => (h s hs hc hahead).mono hP

/-- A step that gives one result only. -/
theorem of_eq {b : β} (h : Consumes m c ts r (· = b)) (hb : P b) : Consumes m c ts r P :=
  h.mono fun _ hresult => hresult ▸ hb

theorem map {f : β → γ} (h : Consumes m c ts r P) (hf : ∀ b, P b → Q (f b)) :
    Consumes (f <$> m) c ts r Q :=
  fun s hs hc hahead => (h s hs hc hahead).map hf

/-! ## Single tokens -/

theorem advance : Consumes Parse.advance c [t] r (· = t) := by
  intro s hs _ hahead
  obtain ⟨s', hadvance, hpass⟩ := Parse.exists_advance hs hahead
  exact ⟨t, s', hadvance, rfl, hpass⟩

theorem expectOr {kind : TokenKind} (expected : List TokenKind) (hkind : t.kind = kind) :
    Consumes (Parse.expectOr kind expected) c [t] r (· = t) := by
  intro s hs _ hahead
  obtain ⟨s', hexpect, hpass⟩ := Parse.exists_expectOr expected hs hahead hkind
  exact ⟨t, s', hexpect, rfl, hpass⟩

theorem expect {kind : TokenKind} (hkind : t.kind = kind) :
    Consumes (Parse.expect kind) c [t] r (· = t) :=
  expectOr [kind] hkind

/-! ## Behind steps that pass nothing -/

/-- A step that looks at the tokens, and then another one that passes them. -/
theorem of_look {f : β → Parse γ} (h : Looks m c ts r P)
    (h' : ∀ b, P b → Consumes (f b) c ts r Q) : Consumes (m >>= f) c ts r Q :=
  fun s hs hc hahead => .skip (h s hs hc hahead) fun b s₁ hb hpass =>
    h' b hb s₁ (hpass.readyFor hs) (hpass.surroundings.trans hc) (hpass.ahead_eq hahead)

variable {f : Token → Parse γ} {g : Bool → Parse γ}

theorem of_current (hts : ts ++ r = t :: us) (h : Consumes (f t) c ts r Q) :
    Consumes (Parse.current >>= f) c ts r Q :=
  of_look (.current hts) fun _ ht => ht ▸ h

theorem of_peek (h : ∀ next, Sees next (ts ++ r) → Consumes (f next) c (t :: ts) r Q) :
    Consumes (Parse.peek >>= f) c (t :: ts) r Q :=
  of_look .peek h

theorem of_currentKind {f : TokenKind → Parse γ} (h : Consumes (f (kind (ts ++ r))) c ts r Q) :
    Consumes (Parse.currentKind >>= f) c ts r Q :=
  of_look .currentKind fun _ hkind => hkind ▸ h

theorem of_standsAt {close : TokenKind}
    (h : Consumes (g (decide (kind (ts ++ r) = close))) c ts r Q) :
    Consumes (Parse.standsAt close >>= g) c ts r Q :=
  of_look (.standsAt close) fun _ hstands => hstands ▸ h

theorem of_record {event : Event} {f : Unit → Parse γ} (h : Consumes (f ()) c ts r Q) :
    Consumes (Parse.record event >>= f) c ts r Q :=
  of_look (.record event) fun _ _ => h

theorem of_spanFrom {start : Position} {f : Span → Parse γ}
    (h : ∀ span, Consumes (f span) c ts r Q) : Consumes (Parse.spanFrom start >>= f) c ts r Q :=
  of_look (.spanFrom start) fun span _ => h span

theorem of_atLineBreak (hts : ts ++ r = t :: us) (h : Consumes (g (breaks c [t])) c ts r Q) :
    Consumes (Parse.atLineBreak >>= g) c ts r Q :=
  of_look (.atLineBreak hts) fun _ hbreak => hbreak ▸ h

end Consumes

end SurfaceGrammar

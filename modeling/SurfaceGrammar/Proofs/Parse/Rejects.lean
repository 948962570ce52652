import SurfaceGrammar.Proofs.Parse.Consumes

/-!
# Steps that stop at a token

A production that passes certain tokens wherever they lie ahead in certain surroundings, and then
fails because of the token behind them, is put together from steps that pass their tokens and from
one that fails. What stands behind the token at which it fails does not matter, so that need not be
readable.

* `Rejects`: wherever the given tokens lie ahead, a step fails.
* `Rejects.unexpected`, `Rejects.expectOr`: steps that fail at the first token.
* `Rejects.first`, `Rejects.bind`, `Rejects.of_look`: two steps, of which the first or the second
  one fails.
-/

namespace SurfaceGrammar

/-- In the surroundings `c` the step fails with the error if `ts` lies ahead and `r` behind them. -/
def Rejects {β : Type} (m : Parse β) (c : Surroundings) (ts r : List Token) (e : Error) : Prop :=
  ∀ s : ParseState, s.ReadyFor r → s.surroundings = c → s.ahead = ts ++ r →
    ∃ s', m s = .error (.error e) s'

/-- The error that the token is none of the expected ones. -/
def Token.unexpected (t : Token) (expected : List TokenKind) : Error :=
  ⟨.unexpectedToken t.describe expected, t.span.start⟩

namespace Rejects

variable {β γ : Type} {m : Parse β} {f : β → Parse γ} {P : β → Prop} {c : Surroundings}
  {t : Token} {ts us r : List Token} {e : Error}

theorem unexpected (ht : t.kind ≠ .eof) (expected : List TokenKind) :
    Rejects (Parse.unexpected expected : Parse β) c [] (t :: r) (t.unexpected expected) := by
  intro s _ _ hahead
  have hcurrent : s.current = t := ParseState.current_of_ahead hahead
  have hfail : (Parse.unexpected expected : Parse β) s =
      .error (.error (s.unexpected expected)) s := rfl
  refine ⟨s, ?_⟩
  rw [hfail, ParseState.unexpected, hcurrent, if_neg ht, ParseState.position, hcurrent,
    Token.unexpected]

/-- A step fails, and so does what begins with it. -/
theorem first (h : Rejects m c ts r e) : Rejects (m >>= f) c ts r e := by
  intro s hs hc hahead
  obtain ⟨s', hm⟩ := h s hs hc hahead
  exact ⟨s', Parse.bind_of_error hm⟩

theorem map {g : β → γ} (h : Rejects m c ts r e) : Rejects (g <$> m) c ts r e := by
  intro s hs hc hahead
  obtain ⟨s', hm⟩ := h s hs hc hahead
  exact ⟨s', Parse.map_of_error hm⟩

/-- A step passes its tokens, and the next one fails. -/
theorem bind (h : Consumes m c ts (us ++ r) P) (h' : ∀ b, P b → Rejects (f b) c us r e) :
    Rejects (m >>= f) c (ts ++ us) r e := by
  intro s hs hc hahead
  rw [List.append_assoc] at hahead
  obtain ⟨b, s₁, hm, hb, hpass⟩ := h s (hs.append us) hc hahead
  rw [Parse.bind_of_ok hm]
  exact h' b hb s₁ (hpass.readyFor hs) (hpass.surroundings.trans hc) (hpass.ahead_eq hahead)

theorem cons (h : Consumes m c [t] (us ++ r) P) (h' : ∀ b, P b → Rejects (f b) c us r e) :
    Rejects (m >>= f) c (t :: us) r e :=
  bind h h'

/-- A step looks at the tokens, and the next one fails. -/
theorem of_look (h : Looks m c ts r P) (h' : ∀ b, P b → Rejects (f b) c ts r e) :
    Rejects (m >>= f) c ts r e := by
  intro s hs hc hahead
  obtain ⟨b, s₁, hm, hb, hpass⟩ := h s hs hc hahead
  rw [Parse.bind_of_ok hm]
  exact h' b hb s₁ (hpass.readyFor hs) (hpass.surroundings.trans hc) (hpass.ahead_eq hahead)

theorem expectOr {kind : TokenKind} (hkind : t.kind ≠ kind) (ht : t.kind ≠ .eof)
    (expected : List TokenKind) :
    Rejects (Parse.expectOr kind expected) c [] (t :: r) (t.unexpected expected) := by
  refine of_look .currentKind fun b hb => ?_
  rw [hb, List.nil_append, Lookahead.kind_cons, if_neg hkind]
  exact unexpected ht expected

end Rejects

end SurfaceGrammar

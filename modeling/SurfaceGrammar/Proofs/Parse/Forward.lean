import Mathlib.Logic.Basic
import SurfaceGrammar.Proofs.Parse.Composed

/-!
# A parse only goes forward

Whether a step succeeds or fails, the tokens that lie ahead afterwards are the last of those that
lay ahead before. If it fails, the error is that of a token that cannot be read, or one about the
token at which the parse stands, or a conditional that began before lacks a branch. This holds of
the single steps and of everything that is put together from them, whatever the results are: what
follows a step in a production has it because its parts do.

* `Course`: what is known of the course of a parse.
* `Course.Opens`: a conditional can begin at a position.
* `ParseState.LeadsTo`: the tokens ahead in one state are the last of those in another.
* `ParseState.Raises`: the errors with which a step may stop in a state.
* `Goes`: where a step that starts in a state may get.
* `Forward`: the property of a step to get only there, wherever it starts.
* `Goes.bind`: two steps, one after the other.
-/

namespace SurfaceGrammar

/-- A stream from which nothing can be read ends with an error. -/
theorem TokenStream.ending_of_read {stream : TokenStream} {e : Error}
    (h : stream.read = .error e) : stream.ending = .error e := by
  unfold TokenStream.read at h
  split at h
  · cases h
  · cases hending : stream.ending with
    | error e' =>
      rw [hending] at h
      cases h
      rfl
    | ok t =>
      rw [hending] at h
      cases h

/-! ## States -/

/-- What is known of the course of a parse: the tokens that it meets, and whether it may ask for
branches. -/
structure Course where
  meets : Token → Prop
  strict : Prop

/-- A conditional can begin at the position: a token that is not the one for the end begins
there. -/
def Course.Opens (G : Course) (p : Position) : Prop :=
  ∃ t, G.meets t ∧ t.kind ≠ .eof ∧ p = t.span.start

namespace ParseState

/-- The tokens ahead in the second state are the last of those ahead in the first one. -/
structure LeadsTo (s s' : ParseState) : Prop where
  suffix : s'.ahead <:+ s.ahead
  ending : s'.upcoming.ending = s.upcoming.ending
  placed : s'.Placed

/-- The token of the state and those after it are met in the course. -/
structure Begins (G : Course) (s : ParseState) : Prop extends s.Placed where
  here : G.meets s.current
  upcoming_meets : ∀ t ∈ s.upcoming.tokens, G.meets t
  ending_meets : ∀ t, s.upcoming.ending = .ok t → G.meets t

/-- The errors with which a step may stop in a state. -/
inductive Raises (G : Course) (s : ParseState) : Error → Prop
  /-- The tokens after the current one cannot be read. -/
  | unreadable {e : Error} (ending : s.upcoming.ending = .error e) : Raises G s e
  | unexpected (expected : List TokenKind) : Raises G s (s.unexpected expected)
  | number (kind : s.current.kind = .number) :
    Raises G s ⟨.numberParseError s.current.value, s.position⟩
  /-- A conditional lacks a branch that is asked for, and began at one of the tokens. -/
  | lacking {start : Position} (opens : G.Opens start) (strict : G.strict) :
    Raises G s ⟨.missingElseBranch, start⟩

variable {G : Course} {s s₁ s₂ : ParseState} {w : List Token}

namespace LeadsTo

theorem refl (hs : s.Placed) : s.LeadsTo s :=
  ⟨List.suffix_rfl, rfl, hs⟩

theorem trans (h : s.LeadsTo s₁) (h' : s₁.LeadsTo s₂) : s.LeadsTo s₂ where
  suffix := h'.suffix.trans h.suffix
  ending := h'.ending.trans h.ending
  placed := h'.placed

/-- Which tokens lie ahead depends on the tokens alone. -/
theorem of_same (hs : s.Placed) (hcurrent : s₁.current = s.current)
    (hupcoming : s₁.upcoming = s.upcoming) : s.LeadsTo s₁ where
  suffix := ⟨[], ahead_congr hcurrent hupcoming⟩
  ending := by rw [hupcoming]
  placed := hs.congr hcurrent hupcoming

theorem of_passes (h : s.Passes w s₁) : s.LeadsTo s₁ :=
  ⟨⟨w, h.ahead.symm⟩, h.ending, h.placed⟩

/-- A token at which a parse stands after others lay ahead before, or stands for the end. -/
theorem current_mem (h : s.LeadsTo s₁) : s₁.current ∈ s.ahead ∨ s₁.current.kind = .eof := by
  by_cases heof : s₁.current.kind = .eof
  · exact .inr heof
  · refine .inl (h.suffix.subset ?_)
    rw [ahead_of_ne_eof heof]
    exact List.mem_cons_self

/-- At the end a parse stands at the token with which the stream ends. -/
theorem current_of_eof (h : s.LeadsTo s₁) (heof : s₁.current.kind = .eof) {stop : Token}
    (hending : s.upcoming.ending = .ok stop) : s₁.current = stop := by
  have hcurrent := (h.placed.atEnd heof).2
  rw [h.ending, hending] at hcurrent
  exact (Except.ok.inj hcurrent).symm

end LeadsTo

namespace Begins

theorem ahead_meets (h : s.Begins G) {t : Token} (ht : t ∈ s.ahead) : G.meets t := by
  by_cases heof : s.current.kind = .eof
  · rw [ahead_eq_nil.mpr heof] at ht
    cases ht
  · rw [ahead_of_ne_eof heof] at ht
    obtain rfl | ht := List.mem_cons.mp ht
    · exact h.here
    · exact h.upcoming_meets t ht

theorem leadsTo (h : s.Begins G) (h' : s.LeadsTo s₁) : s₁.Begins G where
  toPlaced := h'.placed
  here := by
    obtain hmem | heof := h'.current_mem
    · exact h.ahead_meets hmem
    · exact h.ending_meets _ (h'.ending ▸ (h'.placed.atEnd heof).2)
  upcoming_meets := by
    intro t ht
    by_cases heof : s₁.current.kind = .eof
    · rw [(h'.placed.atEnd heof).1] at ht
      cases ht
    · refine h.ahead_meets (h'.suffix.subset ?_)
      rw [ahead_of_ne_eof heof]
      exact List.mem_cons_of_mem _ ht
  ending_meets := fun t ht => h.ending_meets t (h'.ending ▸ ht)

end Begins

/-- With which errors a step may stop depends on the tokens alone. -/
theorem Raises.congr {e : Error} (h : s.Raises G e) (hcurrent : s₁.current = s.current)
    (hupcoming : s₁.upcoming = s.upcoming) : s₁.Raises G e := by
  cases h with
  | unreadable ending => exact .unreadable (hupcoming ▸ ending)
  | unexpected expected =>
    have heq : s.unexpected expected = s₁.unexpected expected := by
      simp only [ParseState.unexpected, position, hcurrent]
    exact heq ▸ .unexpected expected
  | number kind =>
    have hnumber := Raises.number (G := G) (hcurrent.symm ▸ kind : s₁.current.kind = .number)
    simpa only [position, hcurrent] using hnumber
  | lacking opens strict => exact .lacking opens strict

end ParseState

/-! ## Results -/

/-- Where a step that starts in a state may get. -/
inductive Goes {β : Type} (G : Course) (s : ParseState) :
    EStateM.Result Failure ParseState β → Prop
  | ok {b : β} {s' : ParseState} (leads : s.LeadsTo s') : Goes G s (.ok b s')
  | error {e : Error} {s' : ParseState} (leads : s.LeadsTo s') (raises : s'.Raises G e) :
    Goes G s (.error (.error e) s')
  | exhausted {s' : ParseState} (leads : s.LeadsTo s') : Goes G s (.error .exhausted s')

/-- Wherever a step starts, the tokens ahead afterwards are the last of those before, and an error
is about one of them. -/
def Forward (G : Course) : Property := fun _ m =>
  ∀ s : ParseState, s.Begins G → Goes G s (m s)

variable {G : Course} {β γ : Type} {s : ParseState}

namespace Goes

/-- What follows a step that leads to another state. -/
theorem after {s₁ : ParseState} {r : EStateM.Result Failure ParseState β} (h : s.LeadsTo s₁)
    (hr : Goes G s₁ r) : Goes G s r := by
  cases hr with
  | ok leads => exact .ok (h.trans leads)
  | error leads raises => exact .error (h.trans leads) raises
  | exhausted leads => exact .exhausted (h.trans leads)

/-- Two steps, one after the other. -/
theorem bind {m : Parse β} {f : β → Parse γ} (h : Goes G s (m s))
    (hf : ∀ b s₁, m s = .ok b s₁ → s.LeadsTo s₁ → Goes G s₁ (f b s₁)) :
    Goes G s ((m >>= f) s) := by
  change Goes G s (EStateM.bind m f s)
  unfold EStateM.bind
  cases hm : m s with
  | ok b s₁ =>
    rw [hm] at h
    cases h with
    | ok leads => exact .after leads (hf b s₁ hm leads)
  | error failure s₁ =>
    rw [hm] at h
    cases h with
    | error leads raises => exact .error leads raises
    | exhausted leads => exact .exhausted leads

theorem unexpected (hs : s.Placed) (expected : List TokenKind) :
    Goes G s (Parse.unexpected expected s : EStateM.Result Failure ParseState β) :=
  .error (.refl hs) (.unexpected expected)

theorem advance (hs : s.Begins G) : Goes G s (Parse.advance s) := by
  unfold Parse.advance
  split
  · next e hread =>
    exact .error (.refl hs.toPlaced) (.unreadable (TokenStream.ending_of_read hread))
  · next t rest hread =>
    refine .ok ?_
    by_cases heof : s.current.kind = .eof
    · -- at the end, the token for the end is read again
      obtain ⟨hts, hending⟩ := hs.atEnd heof
      obtain ⟨ts, hts', -⟩ | ⟨-, hstop, rfl⟩ := TokenStream.ok_of_read hread
      · rw [hts] at hts'
        cases hts'
      · rw [hending] at hstop
        cases hstop
        exact .of_same hs.toPlaced rfl rfl
    · have hok : ∃ s₁, Parse.advance s = .ok s.current s₁ := by
        unfold Parse.advance
        rw [hread]
        exact ⟨_, rfl⟩
      obtain ⟨s₁, hs₁⟩ := hok
      have hpass := (Parse.passes_of_advance hs.toPlaced heof hs₁).2
      unfold Parse.advance at hs₁
      rw [hread] at hs₁
      cases hs₁
      exact .of_passes hpass

theorem peek (hs : s.Begins G) : Goes G s (Parse.peek s) := by
  unfold Parse.peek
  split
  · next e hread =>
    exact .error (.refl hs.toPlaced) (.unreadable (TokenStream.ending_of_read hread))
  · split
    · exact .ok (.refl hs.toPlaced)
    · exact .ok (.of_same hs.toPlaced rfl rfl)

/-- A step after which a block is left. -/
theorem exitBlock {m : Parse β} (h : Goes G s (m s)) (depth : Nat) :
    Goes G s (Parse.andFinally m (Parse.exitBlock depth) s) := by
  unfold Parse.andFinally
  cases hr : m s with
  | ok b s₁ =>
    rw [hr] at h
    cases h with
    | ok leads => exact .ok (leads.trans (.of_same leads.placed rfl rfl))
  | error failure s₁ =>
    rw [hr] at h
    cases h with
    | error leads raises =>
      exact .error (leads.trans (.of_same leads.placed rfl rfl)) (raises.congr rfl rfl)
    | exhausted leads => exact .exhausted (leads.trans (.of_same leads.placed rfl rfl))

end Goes

namespace Forward

instance : Stepwise (Forward G) where
  pure _ := fun _ hs => .ok (.refl hs.toPlaced)
  exhausted := fun _ hs => .exhausted (.refl hs.toPlaced)
  unexpected expected := fun _ hs => .unexpected hs.toPlaced expected
  bind hm hf := fun s hs => (hm s hs).bind fun b s₁ _ leads => hf b s₁ (hs.leadsTo leads)
  look _ hf := fun s hs => hf s s hs
  record _ := fun _ hs => .ok (.of_same hs.toPlaced rfl rfl)
  advance := fun _ hs => .advance hs
  peek := fun _ hs => .peek hs
  enterGroup := fun _ hs => .ok (.of_same hs.toPlaced rfl rfl)
  exitGroup := fun _ hs => .ok (.of_same hs.toPlaced rfl rfl)
  setInReturnType _ := fun _ hs => .ok (.of_same hs.toPlaced rfl rfl)
  enterBlock := fun _ hs => .ok (.of_same hs.toPlaced rfl rfl)
  exitBlock hm depth := fun s hs => .exitBlock (hm s hs) depth

/-- The records do not matter, even that of the end of a parse. -/
instance record {event : Event} : Obeys (Forward G) (Parse.record event) :=
  ⟨fun _ hs => .ok (.of_same hs.toPlaced rfl rfl)⟩

/-- Where a step may get that only goes forward. -/
theorem goes {m : Parse β} [h : Obeys (Forward G) m] (s : ParseState) (hs : s.Begins G) :
    Goes G s (m s) :=
  h.holds s hs

end Forward

end SurfaceGrammar

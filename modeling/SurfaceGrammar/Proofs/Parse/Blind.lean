import SurfaceGrammar.Proofs.Parse.Composed

/-!
# Steps that do not see the records

A parse leaves records, but it never looks at them: from states that differ in their records only, a
step has the same result and leads to states that differ in their records only. This holds of the
single steps and of everything that is put together from them.

* `ParseState.unlogged`, `Parse.unlogged`: a state and a result without the records.
* `Blind`: the property of a step to do the same without the records before it.
* `Blind.congr`: a step from two states that differ in their records only.
-/

namespace SurfaceGrammar

/-- A state without its records. -/
def ParseState.unlogged (s : ParseState) : ParseState :=
  { s with events := #[] }

/-- The result of a step, with the state that was reached without its records. -/
def Parse.unlogged {β : Type} :
    EStateM.Result Failure ParseState β → EStateM.Result Failure ParseState β
  | .ok b s => .ok b s.unlogged
  | .error failure s => .error failure s.unlogged

/-- Results that are the same without the records. -/
theorem Parse.cases_unlogged {β : Type} {r r' : EStateM.Result Failure ParseState β}
    (h : unlogged r = unlogged r') :
    (∃ b s s', r = .ok b s ∧ r' = .ok b s' ∧ s.unlogged = s'.unlogged) ∨
      ∃ failure s s', r = .error failure s ∧ r' = .error failure s' ∧
        s.unlogged = s'.unlogged := by
  cases r with
  | ok b s =>
    cases r' with
    | ok c s' =>
      injection h with hvalue hstate
      exact .inl ⟨b, s, s', rfl, by rw [hvalue], hstate⟩
    | error failure s' => cases h
  | error failure s =>
    cases r' with
    | ok c s' => cases h
    | error failure' s' =>
      injection h with hfailure hstate
      exact .inr ⟨failure, s, s', rfl, by rw [hfailure], hstate⟩

/-- Wherever a step starts, it does the same without the records before it. -/
def Blind : Property := fun _ m =>
  ∀ s : ParseState, Parse.unlogged (m s.unlogged) = Parse.unlogged (m s)

namespace Blind

variable {β γ : Type}

/-- A step from two states that differ in their records only. -/
theorem congr {m : Parse β} {s s' : ParseState} [hm : Obeys Blind m]
    (h : s'.unlogged = s.unlogged) : Parse.unlogged (m s') = Parse.unlogged (m s) := by
  rw [← hm.holds s', h, hm.holds]

theorem bind {m : Parse β} {f : β → Parse γ} (hm : Blind β m) (hf : ∀ b, Blind γ (f b)) :
    Blind γ (m >>= f) := by
  intro s
  obtain ⟨b, t, u, hnew, hold, hstate⟩ | ⟨failure, t, u, hnew, hold, hstate⟩ :=
    Parse.cases_unlogged (hm s)
  · have hrest : Obeys Blind (f b) := ⟨hf b⟩
    rw [Parse.bind_of_ok hnew, Parse.bind_of_ok hold]
    exact congr hstate
  · rw [Parse.bind_of_error hnew, Parse.bind_of_error hold]
    exact congrArg (EStateM.Result.error failure) hstate

/-- The next token is recorded, and nothing else is done with the records. -/
theorem peek : Blind Token Parse.peek := by
  rintro ⟨upcoming, peeked, current, lastEnd, depth, returnType, events⟩
  unfold Parse.peek ParseState.unlogged
  dsimp only
  cases upcoming.read with
  | error e => rfl
  | ok next => cases peeked <;> rfl

theorem advance : Blind Token Parse.advance := by
  rintro ⟨upcoming, peeked, current, lastEnd, depth, returnType, events⟩
  unfold Parse.advance ParseState.unlogged
  dsimp only
  cases upcoming.read <;> rfl

/-- A step after which a block is left. -/
theorem exitBlock {m : Parse β} (hm : Blind β m) (depth : Nat) :
    Blind β (Parse.andFinally m (Parse.exitBlock depth)) := by
  intro s
  have hdepth {t u : ParseState} (h : t.unlogged = u.unlogged) :
      ({ t with groupDepth := depth } : ParseState).unlogged =
        ({ u with groupDepth := depth } : ParseState).unlogged :=
    congrArg (fun v : ParseState => { v with groupDepth := depth }) h
  unfold Parse.andFinally
  obtain ⟨b, t, u, hnew, hold, hstate⟩ | ⟨failure, t, u, hnew, hold, hstate⟩ :=
    Parse.cases_unlogged (hm s)
  · rw [hnew, hold]
    exact congrArg (EStateM.Result.ok b) (hdepth hstate)
  · rw [hnew, hold]
    exact congrArg (EStateM.Result.error failure) (hdepth hstate)

instance : Stepwise Blind where
  pure _ _ := rfl
  exhausted _ := rfl
  unexpected _ _ := rfl
  bind := bind
  look {_ f} hsame hf s := by
    rw [Parse.bind_get, Parse.bind_get]
    have hlook : f s.unlogged = f s := hsame s s.upcoming s.peeked #[]
    rw [hlook]
    exact hf s s
  record _ _ _ := rfl
  advance := advance
  peek := peek
  enterGroup _ := rfl
  exitGroup _ := rfl
  setInReturnType _ _ := rfl
  enterBlock _ := rfl
  exitBlock := exitBlock

instance : Throws Blind where
  throw _ _ := rfl

end Blind

end SurfaceGrammar

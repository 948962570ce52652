import SurfaceGrammar.Proofs.Parse.Step

/-!
# What productions have in common with their steps

A production does nothing but take single steps, one after the other, and it changes the context of
the tokens for a part of its steps only: inside delimiters, in a block and in a return type. So a
property of the single steps is one of every production if it is kept where steps are put together
in these ways. Two properties are such: what every single step keeps is kept, whether the steps
succeed or fail, and steps that succeed leave the context as they found it.

* `Event.OfProduction`: the records that productions leave.
* `Property`, `Obeys`: a property of steps, and the steps that have it.
* `Sequential`, `Compositional`: the properties that are kept where steps are put together.
* `Stepwise`: the properties that each change of the context has by itself.
* `Throws`: the properties that every failure has.
* `Parse.after`: the state that a step reaches, whether it succeeds or fails.
* `Parse.Keeps`, `Stable`: what a step keeps, and what every single step keeps.
* `Parse.Restores`: a step that leaves the context as it found it.
-/

namespace SurfaceGrammar

open Parse

/-- The record of a production, which is neither that of a token nor that of the end of a parse. -/
class inductive Event.OfProduction : Event → Prop
  | statement {kind : TokenKind} : OfProduction (.statement kind)
  | statementExpr {kind : TokenKind} : OfProduction (.statementExpr kind)
  | expr {power : Power} {kind : TokenKind} : OfProduction (.expr power kind)
  | function {kind : TokenKind} : OfProduction (.function kind)
  | conditional {valueRequired : Bool} : OfProduction (.conditional valueRequired)
  | declaration {label : String} : OfProduction (.declaration label)
  | update {label : String} : OfProduction (.update label)
  | block {kind : BlockKind} : OfProduction (.block kind)
  | blockBody {count : Nat} : OfProduction (.blockBody count)

attribute [instance] Event.OfProduction.statement Event.OfProduction.statementExpr
  Event.OfProduction.expr Event.OfProduction.function Event.OfProduction.conditional
  Event.OfProduction.declaration Event.OfProduction.update Event.OfProduction.block
  Event.OfProduction.blockBody

/-! ## Properties of steps -/

/-- A property of steps, whatever their results are. -/
abbrev Property : Type 1 :=
  (β : Type) → Parse β → Prop

/-- A step that has the property. -/
class Obeys (A : Property) {β : Type} (m : Parse β) : Prop where
  holds : A β m

/-- The single steps have the property, and two steps one after the other have it. -/
class Sequential (A : Property) : Prop where
  pure {β : Type} (b : β) : A β (Pure.pure b)
  exhausted {β : Type} : A β (throw .exhausted)
  unexpected {β : Type} (expected : List TokenKind) : A β (Parse.unexpected expected)
  bind {α β : Type} {m : Parse α} {f : α → Parse β} (hm : A α m) (hf : ∀ a, A β (f a)) :
    A β (m >>= f)
  /-- A look at the current token and its context. -/
  look {β : Type} {f : ParseState → Parse β}
    (hsame : ∀ s upcoming peeked events, f { s with upcoming, peeked, events } = f s)
    (hf : ∀ s, A β (f s)) : A β (MonadState.get >>= f)
  record (event : Event) [event.OfProduction] : A Unit (Parse.record event)
  advance : A Token Parse.advance
  peek : A Token Parse.peek

/-- Steps in a scope have the property: the context changes inside a scope only. -/
class Compositional (A : Property) : Prop extends Sequential A where
  /-- Steps between delimiters. -/
  inGroup {α β : Type} {m : Parse α} {f : α → Parse β} (hm : A α m) (hf : ∀ a, A β (f a)) :
    A β (do
      enterGroup
      let outer ← setInReturnType false
      let a ← m
      exitGroup
      let _ ← setInReturnType outer
      f a)
  /-- Steps in a block. -/
  inBlock {α β : Type} {m : Parse α} {f : α → Parse β} (hm : A α m) (hf : ∀ a, A β (f a)) :
    A β (do
      let depth ← enterBlock
      let a ← andFinally m (exitBlock depth)
      f a)
  /-- Steps in the return type of a function, and those for its body. -/
  inFunction {α γ β : Type} {m : Parse α} {n : α → Parse γ} {f : α → γ → Parse β}
    (hm : A α m) (hn : ∀ a, A γ (n a)) (hf : ∀ a c, A β (f a c)) :
    A β (do
      let outer ← setInReturnType true
      let a ← m
      let _ ← setInReturnType false
      let c ← n a
      let _ ← setInReturnType outer
      f a c)

/-- The changes of the context have the property, each by itself. -/
class Stepwise (A : Property) : Prop extends Sequential A where
  enterGroup : A Unit Parse.enterGroup
  exitGroup : A Unit Parse.exitGroup
  setInReturnType (value : Bool) : A Bool (Parse.setInReturnType value)
  enterBlock : A Nat Parse.enterBlock
  exitBlock {β : Type} {m : Parse β} (hm : A β m) (depth : Nat) :
    A β (andFinally m (Parse.exitBlock depth))

/-- Where the changes of the context have a property, steps in a scope have it. -/
instance {A : Property} [hA : Stepwise A] : Compositional A where
  inGroup hm hf :=
    hA.bind hA.enterGroup fun _ => hA.bind (hA.setInReturnType false) fun outer =>
      hA.bind hm fun a => hA.bind hA.exitGroup fun _ =>
        hA.bind (hA.setInReturnType outer) fun _ => hf a
  inBlock hm hf :=
    hA.bind hA.enterBlock fun depth => hA.bind (hA.exitBlock hm depth) hf
  inFunction hm hn hf :=
    hA.bind (hA.setInReturnType true) fun outer => hA.bind hm fun a =>
      hA.bind (hA.setInReturnType false) fun _ => hA.bind (hn a) fun c =>
        hA.bind (hA.setInReturnType outer) fun _ => hf a c

/-- Every failure has the property. -/
class Throws (A : Property) : Prop where
  throw {β : Type} (failure : Failure) : A β (throw failure)

namespace Obeys

variable {A : Property} {β γ : Type}

section Sequential

variable [hA : Sequential A]

instance pure {b : β} : Obeys A (Pure.pure b : Parse β) := ⟨hA.pure b⟩

instance exhausted : Obeys A (throw .exhausted : Parse β) := ⟨hA.exhausted⟩

instance unexpected {expected : List TokenKind} : Obeys A (Parse.unexpected expected : Parse β) :=
  ⟨hA.unexpected expected⟩

instance bind {m : Parse β} {f : β → Parse γ} [hm : Obeys A m] [hf : ∀ b, Obeys A (f b)] :
    Obeys A (m >>= f) :=
  ⟨hA.bind hm.holds fun b => (hf b).holds⟩

/-- Two steps, of which the second one is looked at by cases. -/
theorem seq {m : Parse β} {f : β → Parse γ} [Obeys A m] (hf : ∀ b, Obeys A (f b)) :
    Obeys A (m >>= f) :=
  bind

theorem look {f : ParseState → Parse β}
    (hsame : ∀ s upcoming peeked events, f { s with upcoming, peeked, events } = f s)
    [hf : ∀ s, Obeys A (f s)] : Obeys A (MonadState.get >>= f) :=
  ⟨hA.look hsame fun s => (hf s).holds⟩

instance record {event : Event} [event.OfProduction] : Obeys A (Parse.record event) :=
  ⟨hA.record event⟩

instance advance : Obeys A Parse.advance := ⟨hA.advance⟩

instance peek : Obeys A Parse.peek := ⟨hA.peek⟩

instance map {m : Parse β} {g : β → γ} [Obeys A m] : Obeys A (g <$> m) := by
  rw [map_eq_pure_bind]
  infer_instance

instance current : Obeys A Parse.current := look fun _ _ _ _ => rfl

instance currentKind : Obeys A Parse.currentKind := look fun _ _ _ _ => rfl

instance standsAt {kind : TokenKind} : Obeys A (Parse.standsAt kind) := look fun _ _ _ _ => rfl

instance atLineBreak : Obeys A Parse.atLineBreak := look fun _ _ _ _ => rfl

instance spanFrom {start : Position} : Obeys A (Parse.spanFrom start) := look fun _ _ _ _ => rfl

end Sequential

instance ite {p : Prop} [Decidable p] {m m' : Parse β} [Obeys A m] [Obeys A m'] :
    Obeys A (if p then m else m') := by
  split <;> infer_instance

instance expectOr [Sequential A] {kind : TokenKind} {expected : List TokenKind} :
    Obeys A (Parse.expectOr kind expected) := by
  unfold Parse.expectOr
  infer_instance

instance expect [Sequential A] {kind : TokenKind} : Obeys A (Parse.expect kind) := by
  unfold Parse.expect
  infer_instance

instance fail [hA : Throws A] {error : Error} : Obeys A (Parse.fail error : Parse β) :=
  ⟨hA.throw (.error error)⟩

section Stepwise

variable [hA : Stepwise A]

instance enterGroup : Obeys A Parse.enterGroup := ⟨hA.enterGroup⟩

instance exitGroup : Obeys A Parse.exitGroup := ⟨hA.exitGroup⟩

instance setInReturnType {value : Bool} : Obeys A (Parse.setInReturnType value) :=
  ⟨hA.setInReturnType value⟩

instance enterBlock : Obeys A Parse.enterBlock := ⟨hA.enterBlock⟩

instance exitBlock {m : Parse β} {depth : Nat} [hm : Obeys A m] :
    Obeys A (andFinally m (Parse.exitBlock depth)) :=
  ⟨hA.exitBlock hm.holds depth⟩

end Stepwise

end Obeys

/-! ## What every step keeps -/

/-- The state that a step reaches, whether it succeeds or fails. -/
def Parse.after {β : Type} (m : Parse β) (s : ParseState) : ParseState :=
  match m s with
  | .ok _ s' | .error _ s' => s'

section After

variable {β : Type} {m : Parse β} {s s' : ParseState}

theorem Parse.after_of_ok {b : β} (h : m s = .ok b s') : m.after s = s' := by
  rw [Parse.after, h]

theorem Parse.after_of_error {failure : Failure} (h : m s = .error failure s') :
    m.after s = s' := by
  rw [Parse.after, h]

/-- Of two steps the second one is taken only if the first succeeds. -/
theorem Parse.after_bind {α : Type} (m : Parse α) (f : α → Parse β) (s : ParseState) :
    (m >>= f).after s = m.after s ∨ ∃ a, (m >>= f).after s = (f a).after (m.after s) := by
  cases hm : m s with
  | ok a s₁ =>
    refine .inr ⟨a, ?_⟩
    rw [after_of_ok hm, after, bind_of_ok hm]
    rfl
  | error failure s₁ =>
    rw [after_of_error hm, after_of_error (bind_of_error hm)]
    exact .inl rfl

/-- A block is left whether its steps succeed or fail. -/
theorem Parse.after_exitBlock (depth : Nat) :
    (andFinally m (exitBlock depth)).after s = { m.after s with groupDepth := depth } := by
  unfold after andFinally
  cases m s <;> rfl

end After

/-- A step keeps what is known of the state, whether it succeeds or fails. -/
def Parse.Keeps {β : Type} (I : ParseState → Prop) (m : Parse β) : Prop :=
  ∀ s, I s → I (m.after s)

/-- What two steps keep is kept if they are taken one after the other. -/
theorem Parse.Keeps.bind {I : ParseState → Prop} {α β : Type} {m : Parse α} {f : α → Parse β}
    (hm : m.Keeps I) (hf : ∀ a, (f a).Keeps I) : (m >>= f).Keeps I := by
  intro s hs
  obtain hafter | ⟨a, hafter⟩ := after_bind m f s
  · rw [hafter]
    exact hm s hs
  · rw [hafter]
    exact hf a _ (hm s hs)

/-- The property of a step to keep what is known of the state. -/
def Keeping (I : ParseState → Prop) : Property := fun _ m => m.Keeps I

/-- What is known of a state does not depend on the context, and the single steps keep it. -/
class Stable (I : ParseState → Prop) : Prop where
  context : ∀ (s : ParseState) (depth : Nat) (inReturnType : Bool), I s →
    I { s with groupDepth := depth, inReturnType }
  record : ∀ (event : Event) [event.OfProduction], (Parse.record event).Keeps I
  advance : Parse.advance.Keeps I
  peek : Parse.peek.Keeps I

namespace Stable

variable {I : ParseState → Prop} [hI : Stable I]

instance : Throws (Keeping I) where
  throw _ := fun _ hs => hs

instance : Stepwise (Keeping I) where
  pure _ := fun _ hs => hs
  exhausted := fun _ hs => hs
  unexpected _ := fun _ hs => hs
  bind := Parse.Keeps.bind
  look _ hf := fun s hs => hf s s hs
  record event := hI.record event
  advance := hI.advance
  peek := hI.peek
  enterGroup := fun s hs => hI.context s (s.groupDepth + 1) s.inReturnType hs
  exitGroup := fun s hs => hI.context s (s.groupDepth - 1) s.inReturnType hs
  setInReturnType value := fun s hs => hI.context s s.groupDepth value hs
  enterBlock := fun s hs => hI.context s 0 s.inReturnType hs
  exitBlock {_ m} hm depth := by
    intro s hs
    rw [Parse.after_exitBlock]
    exact hI.context (m.after s) depth (m.after s).inReturnType (hm s hs)

end Stable

/-- What every single step keeps is kept, whether all of them succeed or one of them fails. -/
theorem Parse.keeps {I : ParseState → Prop} {β : Type} {m : Parse β} [h : Obeys (Keeping I) m] :
    m.Keeps I :=
  h.holds

/-! ## The context -/

/-- The same context: as many open delimiters, and a return type in both or in none. -/
structure ParseState.SameContext (s s' : ParseState) : Prop where
  groupDepth : s'.groupDepth = s.groupDepth
  inReturnType : s'.inReturnType = s.inReturnType

theorem ParseState.SameContext.trans {s s₁ s' : ParseState} (h : s.SameContext s₁)
    (h' : s₁.SameContext s') : s.SameContext s' :=
  ⟨h'.groupDepth.trans h.groupDepth, h'.inReturnType.trans h.inReturnType⟩

theorem Parse.sameContext_of_advance {s s' : ParseState} {t : Token} (h : advance s = .ok t s') :
    s.SameContext s' := by
  unfold advance at h
  split at h <;> cases h
  exact ⟨rfl, rfl⟩

theorem Parse.sameContext_of_peek {s s' : ParseState} {t : Token} (h : peek s = .ok t s') :
    s.SameContext s' := by
  unfold peek at h
  split at h
  · cases h
  · split at h <;> cases h <;> exact ⟨rfl, rfl⟩

/-- Wherever a step succeeds, it leaves the context as it found it. -/
def Parse.Restores {β : Type} (m : Parse β) : Prop :=
  ∀ (s s' : ParseState) (b : β), m s = .ok b s' → s.SameContext s'

/-- The property of a step to leave the context as it found it. -/
def Restorative : Property := fun _ m => m.Restores

namespace Restorative

instance : Throws Restorative where
  throw _ := by
    intro s s' b hok
    cases hok

/-- Every scope is left again. -/
instance : Compositional Restorative where
  pure _ := by
    intro s s' b hok
    cases hok
    exact ⟨rfl, rfl⟩
  exhausted := by
    intro _ s s' b hok
    cases hok
  unexpected _ := by
    intro s s' b hok
    cases hok
  bind hm hf := by
    intro s s' b hok
    obtain ⟨a, s₁, hfirst, hrest⟩ := ok_of_bind hok
    exact (hm s s₁ a hfirst).trans (hf a s₁ s' b hrest)
  look _ hf := fun s s' b hok => hf s s s' b hok
  record _ _ := by
    intro s s' b hok
    cases hok
    exact ⟨rfl, rfl⟩
  advance := fun _ _ _ hok => sameContext_of_advance hok
  peek := fun _ _ _ hok => sameContext_of_peek hok
  inGroup hm hf := by
    intro s s' b hok
    rw [bind_enterGroup, bind_setInReturnType] at hok
    obtain ⟨a, s₁, hinner, hok⟩ := ok_of_bind hok
    rw [bind_exitGroup, bind_setInReturnType] at hok
    have hdepth := (hm _ _ _ hinner).groupDepth
    have houter := hf a _ _ _ hok
    exact ⟨houter.groupDepth.trans (congrArg (· - 1) hdepth), houter.inReturnType⟩
  inBlock hm hf := by
    intro s s' b hok
    rw [bind_enterBlock] at hok
    obtain ⟨a, s₁, hinner, hrest⟩ := ok_of_bind hok
    obtain ⟨s₂, hbody, rfl⟩ := ok_of_exitBlock hinner
    have houter := hf a _ _ _ hrest
    exact ⟨houter.groupDepth, houter.inReturnType.trans (hm _ _ _ hbody).inReturnType⟩
  inFunction hm hn hf := by
    intro s s' b hok
    rw [bind_setInReturnType] at hok
    obtain ⟨a, s₁, htype, hok⟩ := ok_of_bind hok
    rw [bind_setInReturnType] at hok
    obtain ⟨c, s₂, hbody, hok⟩ := ok_of_bind hok
    rw [bind_setInReturnType] at hok
    have hdepth := (hn a _ _ _ hbody).groupDepth.trans (hm _ _ _ htype).groupDepth
    have houter := hf a c _ _ _ hok
    exact ⟨houter.groupDepth.trans hdepth, houter.inReturnType⟩

end Restorative

/-- Steps that succeed leave the context as they found it. -/
theorem Parse.restores {β : Type} {m : Parse β} [h : Obeys Restorative m] : m.Restores :=
  h.holds

theorem Parse.sameContext {β : Type} {m : Parse β} {s s' : ParseState} {b : β}
    [Obeys Restorative m] (h : m s = .ok b s') : s.SameContext s' :=
  restores s s' b h

end SurfaceGrammar

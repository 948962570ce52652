import SurfaceGrammar.Parse.State

/-!
# Watching a parse

A parse can be watched at two places: where a statement begins, and where delimiters are left. The
watch takes steps of its own, whatever they are, if a statement begins between grouping delimiters
or in a return type, or if delimiters are left while none are open. The parse of a source has a
watch that takes no steps.

* `Watch`: the steps that are taken where a parse should never be.
* `Watch.idle`: the watch that takes no steps.
* `Watch.atStatement`, `Watch.atExit`: what is done at the two places.
-/

namespace SurfaceGrammar

/-- The steps that are taken where a parse should never be. -/
structure Watch where
  /-- Before a statement between grouping delimiters or in a return type. -/
  misplaced : Parse Unit
  /-- Before delimiters are left while none are open. -/
  unmatched : Parse Unit

namespace Watch

/-- The watch that takes no steps. -/
def idle : Watch where
  misplaced := pure ()
  unmatched := pure ()

variable (watch : Watch)

/-- What is done before a statement. -/
def atStatement : Parse Unit := do
  let state ← get
  if state.groupDepth = 0 ∧ state.inReturnType = false then pure () else watch.misplaced

/-- What is done before delimiters are left. -/
def atExit : Parse Unit := do
  if (← get).groupDepth = 0 then watch.unmatched else pure ()

@[simp] theorem atStatement_idle : idle.atStatement = pure () := by
  funext s
  change (if s.groupDepth = 0 ∧ s.inReturnType = false then pure () else pure () : Parse Unit) s =
    _
  rw [ite_self]

@[simp] theorem atExit_idle : idle.atExit = pure () := by
  funext s
  change (if s.groupDepth = 0 then pure () else pure () : Parse Unit) s = _
  rw [ite_self]

end Watch

end SurfaceGrammar

import Ndnperf.Library.Transition

namespace Library.Transition.System

/-! What an observer sees of a run, and when another system can show the same. -/

variable {State Label Abstract Visible : Type} {system : System State Label} {abstract : System Abstract Visible}
  {visible : State → Label → Option Visible} {image : State → Abstract} {Invariant Within : State → Prop}

/-- The steps that an observer sees, as long as the labels are enabled. -/
def trace (system : System State Label) (visible : State → Label → Option Visible) (before : State) :
    List Label → List Visible
  | [] => []
  | label :: rest => (visible before label).toList ++ (system.step before label).elim [] (system.trace visible · rest)

/-- Within a bound that no step comes back to, each step is one that the
abstract system makes under its visible label, or leaves the image alone. -/
structure Refines (system : System State Label) (abstract : System Abstract Visible)
    (visible : State → Label → Option Visible) (image : State → Abstract) (Invariant Within : State → Prop) : Prop where
  start : ∀ {state}, system.start state → Invariant state ∧ abstract.start (image state)
  within : ∀ {before label after}, system.step before label = some after → Within after → Within before
  keeps : ∀ {before label after}, Invariant before → Within after → system.step before label = some after →
    Invariant after
  corresponds : ∀ {before label after}, Invariant before → Within after → system.step before label = some after →
    abstract.run (image before) (visible before label).toList = some (image after)

namespace Refines

variable (refines : system.Refines abstract visible image Invariant Within)

include refines

theorem within_run {before after : State} {labels : List Label} (ran : system.run before labels = some after)
    (bounded : Within after) : Within before := by
  induction labels generalizing before with
  | nil =>
      simp only [System.run, Option.some.injEq] at ran
      exact ran ▸ bounded
  | cons label rest ih =>
      obtain ⟨middle, moved, remaining⟩ := run_cons.mp ran
      exact refines.within moved (ih remaining)

theorem invariant {state : State} (reached : system.Reachable state) (bounded : Within state) : Invariant state := by
  induction reached with
  | start initial => exact (refines.start initial).1
  | step _ moved ih => exact refines.keeps (ih (refines.within moved bounded)) bounded moved

theorem invariant_run {before after : State} {labels : List Label} (sound : Invariant before)
    (ran : system.run before labels = some after) (bounded : Within after) : Invariant after := by
  induction labels generalizing before with
  | nil =>
      simp only [System.run, Option.some.injEq] at ran
      exact ran ▸ sound
  | cons label rest ih =>
      obtain ⟨middle, moved, remaining⟩ := run_cons.mp ran
      exact ih (refines.keeps sound (refines.within_run remaining bounded) moved) remaining

/-- A run looks like a run of the abstract system. -/
theorem run_trace {before after : State} {labels : List Label} (sound : Invariant before)
    (ran : system.run before labels = some after) (bounded : Within after) :
    abstract.run (image before) (system.trace visible before labels) = some (image after) := by
  induction labels generalizing before with
  | nil =>
      simp only [System.run, Option.some.injEq] at ran
      rw [ran]
      rfl
  | cons label rest ih =>
      obtain ⟨middle, moved, remaining⟩ := run_cons.mp ran
      have near := refines.within_run remaining bounded
      have further := ih (refines.keeps sound near moved) remaining
      rw [trace, moved]
      exact run_append.mpr ⟨image middle, refines.corresponds sound near moved, further⟩

theorem reachable {state : State} (reached : system.Reachable state) (bounded : Within state) :
    abstract.Reachable (image state) := by
  induction reached with
  | start initial => exact .start (refines.start initial).2
  | step earlier moved ih =>
      have near := refines.within moved bounded
      exact (ih near).run (refines.corresponds (refines.invariant earlier near) bounded moved)

end Refines

end Library.Transition.System

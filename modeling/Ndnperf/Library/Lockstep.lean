import Ndnperf.Library.Transition

namespace Library.Lockstep

open Library.Transition

/-! A component and its reference, performing the same operations in turn. -/

/-- What a component does with an operation and what of its state the
reference knows, with the answers and the next state of the reference. -/
structure Comparison (State Reference Operation Response : Type) where
  perform : State → Operation → Option (Response × State)
  contents : State → Reference
  Answers : State → Reference → Operation → Response → Prop
  next : Reference → Operation → Reference

namespace Comparison

variable {State Reference Operation Response : Type} (comparison : Comparison State Reference Operation Response)

/-- The component alone, its responses left out. -/
def system (start : State) : System State Operation where
  start state := state = start
  step state operation := (comparison.perform state operation).map Prod.snd

/-- Every response is one the reference allows, and the contents stay those of the reference. -/
def Refines (state : State) (reference : Reference) : List Operation → Prop
  | [] => comparison.contents state = reference
  | operation :: rest => comparison.contents state = reference ∧
      ∀ response after, comparison.perform state operation = some (response, after) →
        comparison.Answers state reference operation response ∧
          Refines after (comparison.next reference operation) rest

variable {comparison} {start state : State} {reference : Reference}

theorem system_step {operation : Operation} {after : State} :
    (comparison.system start).step state operation = some after ↔
      ∃ response, comparison.perform state operation = some (response, after) := by
  simp only [system, Option.map_eq_some_iff, Prod.exists, exists_eq_right]

theorem Refines.contents {operations : List Operation} (refines : comparison.Refines state reference operations) :
    comparison.contents state = reference := by
  cases operations with
  | nil => exact refines
  | cons operation rest => exact refines.1

/-- Where one operation is answered as by the reference exactly if it is
allowed, a sequence is exactly if all its operations are. -/
theorem refines_iff_along {Allowed : State → Operation → Prop}
    (decides : ∀ {state operation response after}, comparison.perform state operation = some (response, after) →
      ((comparison.Answers state (comparison.contents state) operation response ∧
        comparison.contents after = comparison.next (comparison.contents state) operation) ↔ Allowed state operation))
    (start state : State) (operations : List Operation) :
    comparison.Refines state (comparison.contents state) operations ↔
      (comparison.system start).Along Allowed state operations := by
  induction operations generalizing state with
  | nil => exact iff_of_true rfl trivial
  | cons operation rest ih =>
      constructor
      · intro refines after moved
        obtain ⟨response, performed⟩ := system_step.mp moved
        obtain ⟨answered, remaining⟩ := refines.2 response after performed
        refine ⟨(decides performed).mp ⟨answered, remaining.contents⟩, (ih after).mp ?_⟩
        rw [remaining.contents]
        exact remaining
      · intro along
        refine ⟨rfl, fun response after performed => ?_⟩
        obtain ⟨allowed, remaining⟩ := along after (system_step.mpr ⟨response, performed⟩)
        obtain ⟨answered, contents⟩ := (decides performed).mpr allowed
        refine ⟨answered, ?_⟩
        rw [← contents]
        exact (ih after).mpr remaining

end Comparison

end Library.Lockstep

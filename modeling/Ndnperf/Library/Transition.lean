import Mathlib.Logic.Basic

namespace Library.Transition

/-! Labelled transition systems given by a guarded step function.

`step state label` is the state after `label`, or `none` where the label is not
enabled. The same function replays a concrete trace and drives the induction
over reachable states, so the two cannot drift apart.
-/

structure System (State Label : Type) where
  start : State → Prop
  step : State → Label → Option State

namespace System

variable {State Label : Type} {system : System State Label}

def run (system : System State Label) (before : State) : List Label → Option State
  | [] => some before
  | label :: rest => (system.step before label).bind (system.run · rest)

theorem run_cons {before : State} {label : Label} {rest : List Label} {after : State} :
    system.run before (label :: rest) = some after ↔
      ∃ middle, system.step before label = some middle ∧ system.run middle rest = some after := by
  simp only [run, Option.bind_eq_some_iff]

theorem run_singleton (before : State) (label : Label) : system.run before [label] = system.step before label :=
  Option.bind_fun_some _

inductive Reachable (system : System State Label) : State → Prop where
  | start {state : State} (initial : system.start state) : Reachable system state
  | step {before after : State} {label : Label} (earlier : Reachable system before)
      (moved : system.step before label = some after) : Reachable system after

theorem Reachable.run {before after : State} {labels : List Label}
    (reached : system.Reachable before) (ran : system.run before labels = some after) :
    system.Reachable after := by
  induction labels generalizing before with
  | nil =>
      simp only [System.run, Option.some.injEq] at ran
      exact ran ▸ reached
  | cons label rest ih =>
      obtain ⟨middle, moved, remaining⟩ := run_cons.mp ran
      exact ih (reached.step moved) remaining

/-- What has to be shown once for a property to hold in every reachable state. -/
structure Inductive (system : System State Label) (Holds : State → Prop) : Prop where
  start : ∀ {state}, system.start state → Holds state
  step : ∀ {before label after}, Holds before → system.step before label = some after → Holds after

theorem Inductive.reachable {Holds : State → Prop} (invariant : system.Inductive Holds)
    {state : State} (reached : system.Reachable state) : Holds state := by
  induction reached with
  | start initial => exact invariant.start initial
  | step _ moved ih => exact invariant.step ih moved

/-- The runs of `system` whose every step meets a condition on the state before it. -/
def guarded (system : System State Label) (Allowed : State → Label → Prop)
    [∀ state label, Decidable (Allowed state label)] : System State Label where
  start := system.start
  step state label := if Allowed state label then system.step state label else none

section Guarded

variable {Allowed : State → Label → Prop} [∀ state label, Decidable (Allowed state label)]

theorem guarded_step {before after : State} {label : Label} :
    (system.guarded Allowed).step before label = some after ↔
      Allowed before label ∧ system.step before label = some after := by
  simp only [guarded, Option.ite_none_right_eq_some]

end Guarded

theorem run_append {before after : State} {first rest : List Label} :
    system.run before (first ++ rest) = some after ↔
      ∃ middle, system.run before first = some middle ∧ system.run middle rest = some after := by
  induction first generalizing before with
  | nil => simp only [List.nil_append, run, Option.some.injEq, exists_eq_left']
  | cons label first ih =>
      simp only [List.cons_append, run_cons, ih]
      constructor
      · intro ran
        obtain ⟨next, moved, middle, started, finished⟩ := ran
        exact ⟨middle, ⟨next, moved, started⟩, finished⟩
      · intro ran
        obtain ⟨middle, ⟨next, moved, started⟩, finished⟩ := ran
        exact ⟨next, moved, middle, started, finished⟩

/-- What holds of the labels so far and of the state they lead to, if one more
label of a certain kind keeps it. -/
theorem run_records_of {Chosen : Label → Prop} {Holds : List Label → State → Prop}
    (keeps : ∀ {past before label after}, Holds past before → Chosen label → system.step before label = some after →
      Holds (past ++ [label]) after)
    {past labels : List Label} {before after : State} (held : Holds past before)
      (chosen : ∀ label ∈ labels, Chosen label)
    (ran : system.run before labels = some after) : Holds (past ++ labels) after := by
  induction labels generalizing past before with
  | nil =>
      simp only [run, Option.some.injEq] at ran
      rw [List.append_nil]
      exact ran ▸ held
  | cons label rest ih =>
      obtain ⟨middle, moved, remaining⟩ := run_cons.mp ran
      obtain ⟨first, others⟩ := List.forall_mem_cons.mp chosen
      have kept := ih (keeps held first moved) others remaining
      rwa [List.append_assoc, List.singleton_append] at kept

theorem run_records {Holds : List Label → State → Prop}
    (keeps : ∀ {past before label after}, Holds past before → system.step before label = some after →
      Holds (past ++ [label]) after)
    {past labels : List Label} {before after : State} (held : Holds past before)
    (ran : system.run before labels = some after) : Holds (past ++ labels) after :=
  run_records_of (fun held (_ : True) moved => keeps held moved) held (fun _ _ => trivial) ran

/-- Labels of a certain kind lead to a state where the goal is met. -/
def CanReach (system : System State Label) (Chosen : Label → Prop) (Goal : State → Prop) (before : State) : Prop :=
  ∃ labels after, (∀ label ∈ labels, Chosen label) ∧ system.run before labels = some after ∧ Goal after

theorem canReach_refl {Chosen : Label → Prop} {Goal : State → Prop} {before : State} (met : Goal before) :
    system.CanReach Chosen Goal before :=
  ⟨[], before, nofun, rfl, met⟩

theorem canReach_of_step {Chosen : Label → Prop} {Goal : State → Prop} {before after : State} {label : Label}
    (chosen : Chosen label) (moved : system.step before label = some after) (met : Goal after) :
    system.CanReach Chosen Goal before :=
  ⟨[label], after, List.forall_mem_singleton.mpr chosen, (run_singleton before label).trans moved, met⟩

theorem canReach_cons {Chosen : Label → Prop} {Goal : State → Prop} {before middle : State} {label : Label}
    (chosen : Chosen label) (moved : system.step before label = some middle)
    (further : system.CanReach Chosen Goal middle) : system.CanReach Chosen Goal before := by
  obtain ⟨labels, after, others, ran, met⟩ := further
  exact ⟨label :: labels, after, List.forall_mem_cons.mpr ⟨chosen, others⟩, run_cons.mpr ⟨middle, moved, ran⟩, met⟩

theorem canReach_trans {Chosen : Label → Prop} {Middle Goal : State → Prop} {before : State}
    (near : system.CanReach Chosen Middle before)
    (far : ∀ {middle}, Middle middle → system.CanReach Chosen Goal middle) :
    system.CanReach Chosen Goal before := by
  obtain ⟨labels, middle, chosen, started, halfway⟩ := near
  obtain ⟨rest, after, others, finished, met⟩ := far halfway
  refine ⟨labels ++ rest, after, fun label member => ?_, run_append.mpr ⟨middle, started, finished⟩, met⟩
  exact (List.mem_append.mp member).elim (chosen label) (others label)

theorem canReach_run {Chosen : Label → Prop} {Goal : State → Prop} {before middle : State} {labels : List Label}
    (chosen : ∀ label ∈ labels, Chosen label) (ran : system.run before labels = some middle)
    (further : system.CanReach Chosen Goal middle) : system.CanReach Chosen Goal before :=
  @canReach_trans _ _ _ _ (· = middle) _ _ ⟨labels, middle, chosen, ran, rfl⟩ fun here => here ▸ further

theorem canReach_imp {Chosen Permitted : Label → Prop} {Goal : State → Prop} {before : State}
    (reaches : system.CanReach Chosen Goal before) (wider : ∀ label, Chosen label → Permitted label) :
    system.CanReach Permitted Goal before := by
  obtain ⟨labels, after, chosen, ran, met⟩ := reaches
  exact ⟨labels, after, fun label member => wider label (chosen label member), ran, met⟩

theorem canReach_mono {Chosen : Label → Prop} {Goal Weaker : State → Prop} {before : State}
    (reaches : system.CanReach Chosen Goal before) (weaker : ∀ {after}, Goal after → Weaker after) :
    system.CanReach Chosen Weaker before :=
  canReach_trans reaches fun met => canReach_refl (weaker met)

/-- What some chosen steps can always bring closer can be reached by them. -/
theorem canReach_of_measure {Chosen : Label → Prop} {Invariant Goal : State → Prop} (measure : State → Nat)
    (closer : ∀ {before}, Invariant before → ¬Goal before →
      system.CanReach Chosen (fun after => Invariant after ∧ measure after < measure before) before)
    {before : State} (sound : Invariant before) : system.CanReach Chosen Goal before := by
  induction bound : measure before using Nat.strongRecOn generalizing before with
  | ind size ih =>
      by_cases met : Goal before
      · exact canReach_refl met
      · exact canReach_trans (closer sound met) fun {middle} nearer =>
          ih (measure middle) (bound ▸ nearer.2) nearer.1 rfl

/-- The property holds in each state that the labels lead through. -/
def Throughout (system : System State Label) (Holds : State → Prop) (before : State) : List Label → Prop
  | [] => Holds before
  | label :: rest => Holds before ∧ ∀ after, system.step before label = some after → system.Throughout Holds after rest

/-- Each step that the labels make is allowed. -/
def Along (system : System State Label) (Allowed : State → Label → Prop) (before : State) : List Label → Prop
  | [] => True
  | label :: rest =>
      ∀ after, system.step before label = some after → Allowed before label ∧ system.Along Allowed after rest

instance decidableAlong {Allowed : State → Label → Prop} [∀ state label, Decidable (Allowed state label)] :
    (before : State) → (labels : List Label) → Decidable (system.Along Allowed before labels)
  | _, [] => .isTrue trivial
  | before, label :: rest =>
      match moved : system.step before label with
      | none => .isTrue fun _ reached => absurd (moved.symm.trans reached) (by simp)
      | some after =>
          have : Decidable (system.Along Allowed after rest) := decidableAlong after rest
          decidable_of_iff (Allowed before label ∧ system.Along Allowed after rest)
            (by simp only [Along, moved, Option.some.injEq, forall_eq'])

theorem Throughout.head {Holds : State → Prop} {before : State} {labels : List Label}
    (throughout : system.Throughout Holds before labels) : Holds before := by
  cases labels with
  | nil => exact throughout
  | cons label rest => exact throughout.1

theorem Throughout.run {Holds : State → Prop} {before after : State} {labels : List Label}
    (throughout : system.Throughout Holds before labels) (ran : system.run before labels = some after) :
    Holds after := by
  induction labels generalizing before with
  | nil =>
      simp only [System.run, Option.some.injEq] at ran
      exact ran ▸ throughout
  | cons label rest ih =>
      obtain ⟨middle, moved, remaining⟩ := run_cons.mp ran
      exact ih (throughout.2 middle moved) remaining

theorem along_of_forall {Allowed : State → Label → Prop} {labels : List Label}
    (allowed : ∀ before, ∀ label ∈ labels, Allowed before label) (before : State) :
    system.Along Allowed before labels := by
  induction labels generalizing before with
  | nil => trivial
  | cons label rest ih =>
      intro after _
      exact ⟨allowed before label List.mem_cons_self,
        ih (fun before other member => allowed before other (List.mem_cons_of_mem _ member)) after⟩

theorem along_append {Allowed : State → Label → Prop} {before : State} {first rest : List Label} :
    system.Along Allowed before (first ++ rest) ↔
      system.Along Allowed before first ∧
        ∀ middle, system.run before first = some middle → system.Along Allowed middle rest := by
  induction first generalizing before with
  | nil => simp only [List.nil_append, Along, run, Option.some.injEq, forall_eq', true_and]
  | cons label first ih =>
      simp only [List.cons_append, Along, ih, run_cons]
      constructor
      · intro along
        refine ⟨fun next moved => ⟨(along next moved).1, (along next moved).2.1⟩, fun middle ran => ?_⟩
        obtain ⟨next, moved, remaining⟩ := ran
        exact (along next moved).2.2 middle remaining
      · intro both next moved
        obtain ⟨allowed, along⟩ := both.1 next moved
        exact ⟨allowed, along, fun middle ran => both.2 middle ⟨next, moved, ran⟩⟩

theorem Along.imp {Allowed Permitted : State → Label → Prop}
    (weaker : ∀ {state label}, Allowed state label → Permitted state label) {before : State} {labels : List Label}
    (along : system.Along Allowed before labels) : system.Along Permitted before labels := by
  induction labels generalizing before with
  | nil => trivial
  | cons label rest ih =>
      intro after moved
      obtain ⟨allowed, remaining⟩ := along after moved
      exact ⟨weaker allowed, ih remaining⟩

/-- What holds of the labels so far and of the state they lead to, if an allowed step keeps it. -/
theorem Along.records {Holds : List Label → State → Prop} {Allowed : State → Label → Prop}
    (keeps : ∀ {past before label after}, Holds past before → Allowed before label →
      system.step before label = some after → Holds (past ++ [label]) after)
    {past labels : List Label} {before after : State} (along : system.Along Allowed before labels)
    (held : Holds past before) (ran : system.run before labels = some after) : Holds (past ++ labels) after := by
  induction labels generalizing past before with
  | nil =>
      simp only [System.run, Option.some.injEq] at ran
      rw [List.append_nil]
      exact ran ▸ held
  | cons label rest ih =>
      obtain ⟨middle, moved, remaining⟩ := run_cons.mp ran
      obtain ⟨allowed, along⟩ := along middle moved
      have kept := ih along (keeps held allowed moved) remaining
      rwa [List.append_assoc, List.singleton_append] at kept

theorem Along.keeps {Invariant : State → Prop} {Allowed : State → Label → Prop}
    (keeps : ∀ {before label after}, Invariant before → Allowed before label → system.step before label = some after →
      Invariant after)
    {before after : State} {labels : List Label} (along : system.Along Allowed before labels) (sound : Invariant before)
    (ran : system.run before labels = some after) : Invariant after :=
  @Along.records _ _ _ (fun _ => Invariant) _ keeps [] _ _ _ along sound ran

/-- Two conditions that agree on each step agree on a run, as long as the
steps that meet them keep what makes them agree. -/
theorem along_iff_along {Invariant : State → Prop} {Allowed Permitted : State → Label → Prop}
    (decides : ∀ {before label after}, Invariant before → system.step before label = some after →
      (Allowed before label ↔ Permitted before label))
    (keeps : ∀ {before label after}, Invariant before → Permitted before label → system.step before label = some after →
      Invariant after)
    {before : State} (sound : Invariant before) (labels : List Label) :
    system.Along Allowed before labels ↔ system.Along Permitted before labels := by
  induction labels generalizing before with
  | nil => exact Iff.rfl
  | cons label rest ih =>
      refine forall₂_congr fun after moved => ?_
      rw [decides sound moved]
      exact and_congr_right fun permitted => ih (keeps sound permitted moved)

/-- Where a step keeps the property exactly if it is allowed, a run keeps it
exactly if all its steps are. -/
theorem throughout_iff_along {Invariant Holds : State → Prop} {Allowed : State → Label → Prop}
    (decides : ∀ {before label after}, Invariant before → Holds before → system.step before label = some after →
      Invariant after ∧ (Holds after ↔ Allowed before label))
    {before : State} (sound : Invariant before) (held : Holds before) (labels : List Label) :
    system.Throughout Holds before labels ↔ system.Along Allowed before labels := by
  induction labels generalizing before with
  | nil => exact iff_of_true held trivial
  | cons label rest ih =>
      constructor
      · intro throughout after moved
        have remaining := throughout.2 after moved
        obtain ⟨next, decided⟩ := decides sound held moved
        exact ⟨decided.mp remaining.head, (ih next remaining.head).mp remaining⟩
      · intro along
        refine ⟨held, fun after moved => ?_⟩
        obtain ⟨allowed, remaining⟩ := along after moved
        obtain ⟨next, decided⟩ := decides sound held moved
        exact (ih next (decided.mpr allowed)).mpr remaining

/-- A step of the concrete system is a step of the abstract one or leaves it
alone; the abstract state may be assumed reachable. -/
structure Simulation {Abstract AbstractLabel : Type} (concrete : System State Label)
    (abstract : System Abstract AbstractLabel) (Related : State → Abstract → Prop) : Prop where
  start : ∀ {state}, concrete.start state → ∃ image, abstract.start image ∧ Related state image
  step : ∀ {before label after image}, abstract.Reachable image → Related before image →
    concrete.step before label = some after → Related after image ∨
      ∃ abstractLabel next, abstract.step image abstractLabel = some next ∧ Related after next

theorem Simulation.reachable {Abstract AbstractLabel : Type} {abstract : System Abstract AbstractLabel}
    {Related : State → Abstract → Prop} (simulation : Simulation system abstract Related)
    {state : State} (reached : system.Reachable state) :
    ∃ image, abstract.Reachable image ∧ Related state image := by
  induction reached with
  | start initial =>
      obtain ⟨image, begun, related⟩ := simulation.start initial
      exact ⟨image, .start begun, related⟩
  | step _ moved ih =>
      obtain ⟨image, earlier, related⟩ := ih
      rcases simulation.step earlier related moved with same | ⟨_, next, moved, related⟩
      · exact ⟨image, earlier, same⟩
      · exact ⟨next, earlier.step moved, related⟩

end System

end Library.Transition

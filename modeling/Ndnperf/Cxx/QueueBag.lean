import Ndnperf.Library.Refinement
import Ndnperf.Cxx.QueueCalls

namespace Ndnperf.Cxx.BlockingConcurrentQueue

open Library Library.Transition

variable {Thread Address Element : Type} [DecidableEq Thread] [DecidableEq Address]
  {before after state : State Thread Address Element}
  {thread ptr : Thread} {noexceptCtor : Bool} {pc : Pc Thread Element}

/-! ## No count goes back -/

/-- What is counted before a step is counted after it. -/
structure Ages (before after : State Thread Address Element) : Prop where
  producers : ∀ ptr, ImplicitProducer.Young (after.producers ptr) → ImplicitProducer.Young (before.producers ptr)
  signalled : before.sema.signalled ≤ after.sema.signalled

omit [DecidableEq Thread] [DecidableEq Address] in
theorem ages_same (producers : after.producers = before.producers)
    (signalled : before.sema.signalled ≤ after.sema.signalled) :
    Ages before after :=
  ⟨fun _ young => producers ▸ young, signalled⟩

omit [DecidableEq Address] in
theorem ages_setProducer {producer : ImplicitProducer.State Thread Address Element}
    (producers : after.producers = (before.setProducer ptr producer).producers) (sema : after.sema = before.sema)
    (counted : ImplicitProducer.Young producer → ImplicitProducer.Young (before.producers ptr)) :
    Ages before after := by
  refine ⟨fun other young => ?_, sema ▸ Nat.le_refl _⟩
  rw [producers] at young
  by_cases same : other = ptr
  · rw [same, State.setProducer_self] at young
    exact same ▸ counted young
  · rwa [State.setProducer_other same] at young

omit [DecidableEq Address] in
theorem ages_callDequeue : Ages before (before.callDequeue thread ptr pc) := ages_setProducer rfl rfl id

omit [DecidableEq Address] in
theorem ages_scanFrom (scan : Scan Thread) (rest : List Thread) : Ages before (before.scanFrom thread scan rest) := by
  have scanned : Ages before (before.scanned thread scan) := by
    rw [State.scanned]
    split
    · split
      · exact ages_callDequeue
      · exact ages_same rfl (Nat.le_refl _)
    · exact ages_same rfl (Nat.le_refl _)
  cases rest with
  | nil => exact scanned
  | cons ptr rest =>
      rw [State.scanFrom]
      split
      · exact ages_same rfl (Nat.le_refl _)
      · exact scanned

omit [DecidableEq Address] in
theorem ages_tryFrom (best : Thread) (rest : List Thread) : Ages before (before.tryFrom thread best rest) := by
  induction rest with
  | nil => exact ages_same rfl (Nat.le_refl _)
  | cons ptr rest ih =>
      rw [State.tryFrom]
      split
      · exact ih
      · exact ages_callDequeue

theorem ages_inDequeue {failed : State Thread Address Element} (failing : Ages before failed)
    (moved : before.inDequeue thread ptr failed = some after) : Ages before after := by
  simp only [State.inDequeue] at moved
  split at moved
  · exact Option.some.inj moved ▸ ages_same rfl (Nat.le_refl _)
  · exact Option.some.inj moved ▸ failing
  · obtain ⟨producer, consumed, made⟩ := Option.map_eq_some_iff.mp moved
    have counted := ImplicitProducer.young_of_step
      (show ImplicitProducer.step true (before.producers ptr) (.consume thread) = _ from consumed)
    exact made ▸ ages_setProducer rfl rfl counted

omit [DecidableEq Address] in
theorem ages_inSemaphore {spurious : Bool} {returned : Pc Thread Element}
    (moved : before.inSemaphore thread spurious returned = some after) : Ages before after := by
  simp only [State.inSemaphore] at moved
  split at moved
  · exact Option.some.inj moved ▸ ages_same rfl (Nat.le_refl _)
  · obtain ⟨sema, called, made⟩ := Option.map_eq_some_iff.mp moved
    refine made ▸ ages_same rfl ?_
    exact LightweightSemaphore.signalled_of_advance called ▸ Nat.le_add_right _ _

theorem ages_produce {outcome : ImplicitProducer.Outcome Address}
    (moved : before.produce noexceptCtor thread outcome = some after) :
    Ages before after := by
  obtain ⟨producer, produced, made⟩ := Option.map_eq_some_iff.mp moved
  have counted := ImplicitProducer.young_of_step
    (show ImplicitProducer.step noexceptCtor (before.producers thread) (.produce outcome) = _ from produced)
  exact made ▸ ages_setProducer rfl rfl counted

theorem ages_callEnqueue {element : Element} {list : List Thread}
    (moved : callEnqueue noexceptCtor { before with producerList := list } thread element = some after) :
    Ages before after := by
  obtain ⟨producer, called, made⟩ := Option.map_eq_some_iff.mp moved
  exact made ▸ ages_setProducer rfl rfl (ImplicitProducer.young_of_step called)

variable [Fintype Thread]

theorem ages_of_step {label : Label Thread Address Element} (moved : step noexceptCtor before label = some after) :
    Ages before after := by
  cases label with
  | enqueue thread element created =>
      simp only [step] at moved
      split at moved
      · split at moved
        · exact ages_callEnqueue moved
        · split at moved
          · exact ages_callEnqueue moved
          · exact Option.some.inj moved ▸ ages_same rfl (Nat.le_refl _)
      · cases moved
  | waitDequeue thread =>
      simp only [step] at moved
      split at moved
      · exact Option.some.inj moved ▸ ages_same rfl (Nat.le_refl _)
      · cases moved
  | advance thread outcome spurious =>
      cases here : before.pcs thread with
      | outside => simp only [step, advance, here, reduceCtorEq] at moved
      | enqueue =>
          simp only [step, advance, here, State.inEnqueue] at moved
          split at moved
          · exact Option.some.inj moved ▸ ages_same rfl (Nat.le_refl _)
          · exact Option.some.inj moved ▸ ages_same rfl (Nat.le_refl _)
          · split at moved
            · exact ages_produce moved
            · cases moved
          · exact ages_produce moved
      | signal | wait =>
          simp only [step, advance, here] at moved
          exact ages_inSemaphore moved
      | producerListTail | sizeHead =>
          simp only [step, advance, here, Option.some.injEq] at moved
          exact moved ▸ ages_scanFrom _ _
      | sizeTail =>
          simp only [step, advance, here, Option.some.injEq] at moved
          exact moved ▸ ages_same rfl (Nat.le_refl _)
      | secondListTail =>
          simp only [step, advance, here, Option.some.injEq] at moved
          exact moved ▸ ages_tryFrom _ _
      | dequeueBest =>
          simp only [step, advance, here] at moved
          refine ages_inDequeue ?_ moved
          exact ages_same rfl (Nat.le_refl _)
      | dequeueOther =>
          simp only [step, advance, here] at moved
          exact ages_inDequeue (ages_tryFrom _ _) moved

/-! ## A queue is a bag -/

namespace State

/-- What is left in a producer. -/
def left (state : State Thread Address Element) (ptr : Thread) : Multiset Element :=
  ((state.producers ptr).enqueued.drop (state.producers ptr).headIndex : List Element)

def image (state : State Thread Address Element) : Bag.State Thread Element where
  items := ∑ ptr, state.left ptr
  taken := state.taken

end State

omit [DecidableEq Address] [Fintype Thread] in
theorem Steps.image_taken (steps : Steps before after thread) {elements : List Element}
    (taken : after.taken thread = elements) :
    after.taken = Function.update before.taken thread elements := by
  funext other
  by_cases same : other = thread
  · subst same
    rw [taken, Function.update_self]
  · rw [Function.update_of_ne same, steps.taken same]

variable [DecidableEq Element]

omit [DecidableEq Address] in
/-- Each step is one of the bag, or leaves it alone. -/
theorem Effect.corresponds {seen : Option (Bag.Label Thread Element)} (sound : Sound noexceptCtor before)
    (effect : Effect before after thread seen) : Bag.system.run before.image seen.toList = some after.image := by
  cases effect with
  | calm calm =>
      have items : after.left = before.left := by
        funext ptr
        rw [State.left, State.left, calm.enqueued, calm.headIndex]
      have taken := calm.steps.image_taken calm.taken
      rw [Function.update_eq_self] at taken
      simp only [State.image, items, taken]
      rfl
  | puts steps enqueued headIndex taken =>
      rename_i element
      have own : after.left thread = before.left thread + {element} := by
        rw [State.left, enqueued, headIndex, List.drop_append_of_le_length (sound.producers thread).head_le,
          ← Multiset.coe_add]
        rfl
      have others : ∀ ptr, ptr ≠ thread → after.left ptr = before.left ptr := by
        intro ptr apart
        rw [State.left, State.left, steps.enqueued ptr apart, headIndex]
      have more := Threads.sum_of_others others
      rw [own, ← add_assoc, add_right_comm] at more
      have items : (∑ ptr, after.left ptr) = (∑ ptr, before.left ptr) + {element} := add_right_cancel more
      have same := steps.image_taken taken
      rw [Function.update_eq_self] at same
      refine (@System.run_singleton _ _ (Bag.system : System (Bag.State Thread Element) _) _ _).trans ?_
      simp only [State.image, items, same]
      rfl
  | takes steps enqueued others next headIndex taken =>
      rename_i ptr element
      have own : before.left ptr = {element} + after.left ptr := by
        obtain ⟨within, found⟩ := List.getElem?_eq_some_iff.mp next
        rw [State.left, State.left, enqueued, headIndex, List.drop_eq_getElem_cons within, found]
        rfl
      have more : (∑ other, after.left other) + before.left ptr = (∑ other, before.left other) + after.left ptr := by
        refine Threads.sum_of_others fun other apart => ?_
        rw [State.left, State.left, enqueued, others other apart]
      rw [own, ← add_assoc] at more
      have items : (∑ other, before.left other) = element ::ₘ ∑ other, after.left other := by
        rw [← add_right_cancel more, add_comm, Multiset.singleton_add]
      have there : element ∈ ∑ other, before.left other := items ▸ Multiset.mem_cons_self element _
      refine (@System.run_singleton _ _ (Bag.system : System (Bag.State Thread Element) _) _ _).trans
        ((if_pos there).trans ?_)
      simp only [State.image, items, Multiset.erase_cons_head, steps.image_taken taken]

namespace State

/-- What was put in is still there or has been taken by one thread. -/
def Whole (state : State Thread Address Element) : Prop :=
  ∑ ptr, ((state.producers ptr).enqueued : Multiset Element) =
    state.image.items + ∑ thread, (state.image.taken thread : Multiset Element)

end State

omit [DecidableEq Address] [DecidableEq Element] in
theorem Effect.enqueued {seen : Option (Bag.Label Thread Element)} (effect : Effect before after thread seen) :
    ∑ ptr, ((after.producers ptr).enqueued : Multiset Element) =
      ∑ ptr, ((before.producers ptr).enqueued : Multiset Element) + (seen.toList.map Bag.Label.element).sum := by
  cases effect with
  | calm calm =>
      rw [Finset.sum_congr rfl fun ptr _ => congrArg _ (calm.enqueued ptr)]
      exact (add_zero _).symm
  | puts steps enqueued headIndex taken =>
      rename_i element
      have more : (∑ ptr, ((after.producers ptr).enqueued : Multiset Element)) + (before.producers thread).enqueued =
          (∑ ptr, ((before.producers ptr).enqueued : Multiset Element)) + (after.producers thread).enqueued :=
        Threads.sum_of_others fun ptr apart => congrArg _ (steps.enqueued ptr apart)
      rw [enqueued, ← Multiset.coe_add, ← add_assoc, add_right_comm] at more
      exact add_right_cancel more
  | takes steps enqueued others next headIndex taken =>
      rw [Finset.sum_congr rfl fun ptr _ => congrArg _ (enqueued ptr)]
      exact (add_zero _).symm

omit [DecidableEq Address] in
theorem Keeps.whole {seen : Option (Bag.Label Thread Element)} (sound : Sound noexceptCtor before)
    (whole : before.Whole) (keeps : Keeps noexceptCtor before after thread seen) : after.Whole := by
  rw [State.Whole, Bag.items_run (keeps.effect.corresponds sound), keeps.effect.enqueued, whole]

omit [DecidableEq Thread] [DecidableEq Address] [DecidableEq Element] in
theorem initial_sound (blocks : Thread → Address → ImplicitProducer.Block Element) :
    Sound noexceptCtor (State.initial blocks : State Thread Address Element) := by
  refine ⟨rfl, fun ptr => ImplicitProducer.initial_sound _ _, LightweightSemaphore.valid_initial, fun _ => rfl,
    fun _ _ _ => ⟨none, rfl⟩,
    fun _ => trivial, fun ptr _ => ⟨?_, rfl⟩, ?_, ?_, fun _ => rfl⟩
  · intro entered
    cases entered
  · simp [State.initial, ImplicitProducer.State.initial, LightweightSemaphore.State.initial, State.owes]
  · simp [State.initial, ImplicitProducer.State.initial, State.taken, State.inHand, Pc.ptr]

/-- The queue with the threads that call it is a bag, for up to `2 ^ 62`
elements of each producer and attempts to dequeue from it. -/
theorem refines (few : Fintype.card Thread < 2 ^ 31) (noexceptCtor : Bool) :
    (system noexceptCtor : System (State Thread Address Element) (Label Thread Address Element)).Refines
      Bag.system visible State.image (fun state => Sound noexceptCtor state ∧ state.Whole) Young where
  start := by
    intro state initial
    obtain ⟨blocks, rfl⟩ := initial
    have empty : (State.initial blocks : State Thread Address Element).image = .initial := by
      simp only [State.image, State.left, State.initial, ImplicitProducer.State.initial, List.drop_nil,
        Multiset.coe_nil, Finset.sum_const_zero]
      rfl
    refine ⟨⟨initial_sound blocks, ?_⟩, empty⟩
    rw [State.Whole, empty]
    simp [State.initial, ImplicitProducer.State.initial, Bag.State.initial]
  within moved young := by
    have ages := ages_of_step moved
    exact ⟨fun ptr => ages.producers ptr (young.producers ptr), Nat.lt_of_le_of_lt ages.signalled young.signalled⟩
  keeps held young moved := by
    have keeps := held.1.step few young moved
    exact ⟨keeps.sound, keeps.whole held.1 held.2⟩
  corresponds held young moved := (held.1.step few young moved).effect.corresponds held.1

/-- In any interleaving the queue behaves as a bag does: an element is in it
from the store of its tail on, until one thread moves the head over it. Each
thread returns what it takes in that order, and meets no undefined behaviour,
neither in its search nor inside a subqueue. -/
theorem elements_linearizable (few : Fintype.card Thread < 2 ^ 31)
    {blocks : Thread → Address → ImplicitProducer.Block Element} {labels : List (Label Thread Address Element)}
    (ran : (system noexceptCtor).run (.initial blocks) labels = some state) (young : Young state) :
    Bag.system.run .initial ((system noexceptCtor).trace visible (.initial blocks) labels) = some state.image ∧
      state.undefined = false ∧ ∀ ptr, (state.producers ptr).undefined = false := by
  have start := (refines few noexceptCtor).start ⟨blocks, rfl⟩
  have traced := (refines few noexceptCtor).run_trace start.1 ran young
  have sound := (refines few noexceptCtor).invariant_run start.1 ran young
  rw [show (State.initial blocks : State Thread Address Element).image = .initial from start.2] at traced
  exact ⟨traced, sound.1.defined, fun ptr => (sound.1.producers ptr).defined⟩

/-- One thread enqueues an element and takes it out again. -/
def roundTrip : List (Label Unit Nat Nat) :=
  .enqueue () 7 true :: List.replicate 11 (.advance () ⟨true, some 3, false⟩ false) ++
    .waitDequeue () :: List.replicate 19 (.advance () ⟨true, some 3, false⟩ false)

theorem roundTrip_ran : ∃ state : State Unit Nat Nat,
    (system true).run (.initial fun _ _ => ⟨0, fun _ => none⟩) roundTrip = some state ∧ Young state ∧
      (state.producers ()).enqueued = [7] ∧ state.dequeued () = [7] := by
  have ran : ∃ state : State Unit Nat Nat, (system true).run (.initial fun _ _ => ⟨0, fun _ => none⟩) roundTrip =
      some state ∧
      (state.producers ()).enqueued = [7] ∧ (state.producers ()).drawn = 1 ∧ state.sema.signalled = 1 ∧
        state.dequeued () = [7] := ⟨_, rfl, rfl, rfl, rfl, rfl⟩
  obtain ⟨state, ran, enqueued, drawn, signalled, dequeued⟩ := ran
  refine ⟨state, ran, ⟨fun _ => ?_, ?_⟩, enqueued, dequeued⟩
  · rw [ImplicitProducer.Young, enqueued, drawn]
    decide
  · rw [signalled]
    decide

theorem roundTrip_linearizable : ∃ state : State Unit Nat Nat,
    (system true).run (.initial fun _ _ => ⟨0, fun _ => none⟩) roundTrip = some state ∧
      Bag.system.run .initial [.put 7, .take () 7] = some state.image ∧ state.undefined = false ∧
      ∀ ptr, (state.producers ptr).undefined = false := by
  obtain ⟨state, ran, young, _⟩ := roundTrip_ran
  exact ⟨state, ran, elements_linearizable (by decide) ran young⟩

omit [DecidableEq Element] in
/-- Each element that was put in is still there, or in the hands of one thread,
or was returned by one call. -/
theorem none_lost (few : Fintype.card Thread < 2 ^ 31) (reached : (system noexceptCtor).Reachable state)
    (young : Young state) :
    ∑ ptr, ((state.producers ptr).enqueued : Multiset Element) =
      ∑ ptr, ((state.producers ptr).enqueued.drop (state.producers ptr).headIndex : Multiset Element) +
        ∑ thread, (state.dequeued thread ++ (state.inHand thread).toList : Multiset Element) := by
  classical
  exact ((refines few noexceptCtor).invariant reached young).2

theorem roundTrip_whole : ∃ state : State Unit Nat Nat,
    (system true).run (.initial fun _ _ => ⟨0, fun _ => none⟩) roundTrip = some state ∧
      ∑ ptr, ((state.producers ptr).enqueued : Multiset Nat) =
        ∑ ptr, ((state.producers ptr).enqueued.drop (state.producers ptr).headIndex : Multiset Nat) +
          ∑ thread, (state.dequeued thread ++ (state.inHand thread).toList : Multiset Nat) := by
  obtain ⟨state, ran, young, _⟩ := roundTrip_ran
  exact ⟨state, ran, none_lost (by decide) (.run (.start ⟨_, rfl⟩) ran) young⟩

end Ndnperf.Cxx.BlockingConcurrentQueue

import Ndnperf.Library.Bag
import Ndnperf.Cxx.BlockingConcurrentQueue
import Ndnperf.Cxx.ProducerCalls
import Ndnperf.Cxx.SemaphoreCalls

namespace Ndnperf.Cxx.BlockingConcurrentQueue

open Library Library.Transition

variable {Thread Address Element : Type}

/-! ## Where a thread is in the parts of the queue -/

/-- Where a thread is in the semaphore; `sema->signal()` is for one permit, and so is `sema->wait()`. -/
def Pc.Calls (sema : LightweightSemaphore.Pc) : Pc Thread Element → Prop
  | .signal => sema.SignalsOne
  | .wait => sema.WaitsForOne
  | _ => sema = .outside

/-- The producer whose `dequeue` it is in. -/
def Pc.ptr : Pc Thread Element → Option Thread
  | .dequeueBest best => some best
  | .dequeueOther _ ptr _ => some ptr
  | _ => none

/-- The permits for which its call has not returned an element. -/
def Pc.permits (sema : LightweightSemaphore.Pc) : Pc Thread Element → Nat
  | .wait => if sema = .outside then 1 else 0
  | .outside _ | .enqueue | .signal => 0
  | .producerListTail | .sizeTail _ _ _ | .sizeHead _ _ _ _ | .dequeueBest _ | .secondListTail _
  | .dequeueOther _ _ _ => 1

/-- Without a best producer none that is not empty has been seen. -/
def Scan.Found (scan : Scan Thread) : Prop := scan.best = none → scan.nonEmptyCount = 0 ∧ scan.bestSize = 0

def Pc.Found : Pc Thread Element → Prop
  | .sizeTail scan _ _ | .sizeHead scan _ _ _ => scan.Found
  | _ => True

namespace State

variable (state : State Thread Address Element)

def permits (thread : Thread) : Nat := (state.pcs thread).permits (state.sema.pcs thread)

/-- The element that a thread has claimed, and that its call has not returned. -/
def inHand (thread : Thread) : Option Element :=
  (state.pcs thread).ptr.bind fun ptr => (state.producers ptr).inHand thread

def taken (thread : Thread) : List Element := state.dequeued thread ++ (state.inHand thread).toList

/-- The signals for elements that are in the queue and not signalled. -/
def owes (thread : Thread) : Nat :=
  match state.pcs thread with
  | .enqueue => (state.producers thread).producer.succeeded
  | .signal => (state.sema.pcs thread).signals
  | _ => 0

end State

/-! ## The invariant -/

variable [Fintype Thread] [DecidableEq Thread] [DecidableEq Address]

/-- Each element that was put in is signalled or about to be, and a thread has
one permit for each element that it has taken or is about to. -/
structure Sound (noexceptCtor : Bool) (state : State Thread Address Element) : Prop where
  defined : state.undefined = false
  producers : ∀ ptr, ImplicitProducer.Sound noexceptCtor (state.producers ptr)
  sema : LightweightSemaphore.Valid state.sema
  calls : ∀ thread, (state.pcs thread).Calls (state.sema.pcs thread)
  idle : ∀ ptr thread, (state.pcs thread).ptr ≠ some ptr → ∃ result, (state.producers ptr).consumers thread =
    .outside result
  found : ∀ thread, (state.pcs thread).Found
  listed : ∀ ptr, ptr ∉ state.producerList → state.pcs ptr ≠ .enqueue ∧ (state.producers ptr).enqueued = []
  puts : ∑ ptr, (state.producers ptr).enqueued.length = state.sema.signalled + ∑ thread, state.owes thread
  takes : ∑ ptr, (state.producers ptr).headIndex = ∑ thread, (state.taken thread).length
  permits : ∀ thread, state.sema.returned thread = (state.dequeued thread).length + state.permits thread

/-- Within the number of calls that the words count. -/
structure Young (state : State Thread Address Element) : Prop where
  producers : ∀ ptr, ImplicitProducer.Young (state.producers ptr)
  signalled : state.sema.signalled < 2 ^ 63

/-- What a step of one thread leaves to the others. -/
structure Steps (before after : State Thread Address Element) (thread : Thread) : Prop where
  pcs : ∀ other, other ≠ thread → after.pcs other = before.pcs other
  sema : ∀ other, other ≠ thread → after.sema.pcs other = before.sema.pcs other
  returned : ∀ other, other ≠ thread → after.sema.returned other = before.sema.returned other
  dequeued : ∀ other, other ≠ thread → after.dequeued other = before.dequeued other
  idle : ∀ ptr other, other ≠ thread → (after.producers ptr).consumers other = (before.producers ptr).consumers other
  inHand : ∀ other, other ≠ thread → after.inHand other = before.inHand other
  producer : ∀ ptr, ptr ≠ thread → (after.producers ptr).producer = (before.producers ptr).producer
  enqueued : ∀ ptr, ptr ≠ thread → (after.producers ptr).enqueued = (before.producers ptr).enqueued
  listed : ∀ ptr, ptr ≠ thread → ptr ∉ after.producerList → ptr ∉ before.producerList

variable {before after : State Thread Address Element} {thread : Thread} {noexceptCtor : Bool}

omit [Fintype Thread] [DecidableEq Thread] [DecidableEq Address] in
theorem Steps.owes (steps : Steps before after thread) {other : Thread} (apart : other ≠ thread) :
    after.owes other = before.owes other := by
  rw [State.owes, State.owes, steps.pcs other apart, steps.producer other apart, steps.sema other apart]

omit [Fintype Thread] [DecidableEq Thread] [DecidableEq Address] in
theorem Steps.taken (steps : Steps before after thread) {other : Thread} (apart : other ≠ thread) :
    after.taken other = before.taken other := by
  rw [State.taken, State.taken, steps.dequeued other apart, steps.inHand other apart]

omit [DecidableEq Address] in
/-- What has to be shown of the thread that makes a step. -/
theorem Sound.of_steps (sound : Sound noexceptCtor before) (steps : Steps before after thread)
    (defined : after.undefined = false) (producers : ∀ ptr, ImplicitProducer.Sound noexceptCtor (after.producers ptr))
    (sema : LightweightSemaphore.Valid after.sema) (calls : (after.pcs thread).Calls (after.sema.pcs thread))
    (idle : ∀ ptr, (after.pcs thread).ptr ≠ some ptr → ∃ result, (after.producers ptr).consumers thread =
      .outside result)
    (found : (after.pcs thread).Found)
    (listed : thread ∉ after.producerList → after.pcs thread ≠ .enqueue ∧ (after.producers thread).enqueued = [])
    (puts : (after.producers thread).enqueued.length + (before.sema.signalled + before.owes thread) =
      (before.producers thread).enqueued.length + (after.sema.signalled + after.owes thread))
    (takes : (∑ ptr, (after.producers ptr).headIndex) + (before.taken thread).length =
      (∑ ptr, (before.producers ptr).headIndex) + (after.taken thread).length)
    (permits : after.sema.returned thread = (after.dequeued thread).length + after.permits thread) :
    Sound noexceptCtor after := by
  refine ⟨defined, producers, sema, fun other => ?_, fun ptr other absent => ?_, fun other => ?_,
    fun ptr absent => ?_, ?_, ?_,
    fun other => ?_⟩
  · by_cases same : other = thread
    · exact same ▸ calls
    · rw [steps.pcs other same, steps.sema other same]
      exact sound.calls other
  · by_cases same : other = thread
    · subst same
      exact idle ptr absent
    · rw [steps.pcs other same] at absent
      rw [steps.idle ptr other same]
      exact sound.idle ptr other absent
  · by_cases same : other = thread
    · exact same ▸ found
    · rw [steps.pcs other same]
      exact sound.found other
  · by_cases same : ptr = thread
    · subst same
      exact listed absent
    · rw [steps.pcs ptr same, steps.enqueued ptr same]
      exact sound.listed ptr (steps.listed ptr same absent)
  · have lengths : (∑ ptr, (after.producers ptr).enqueued.length) + (before.producers thread).enqueued.length =
        (∑ ptr, (before.producers ptr).enqueued.length) + (after.producers thread).enqueued.length :=
      Threads.sum_of_others fun ptr apart => congrArg List.length (steps.enqueued ptr apart)
    have owes : (∑ other, after.owes other) + before.owes thread = (∑ other, before.owes other) + after.owes thread :=
      Threads.sum_of_others fun other => steps.owes
    have account := sound.puts
    omega
  · have taken : (∑ other, (after.taken other).length) + (before.taken thread).length =
        (∑ other, (before.taken other).length) + (after.taken thread).length :=
      Threads.sum_of_others fun other apart => congrArg List.length (steps.taken apart)
    have account := sound.takes
    omega
  · by_cases same : other = thread
    · exact same ▸ permits
    · rw [steps.returned other same, steps.dequeued other same, State.permits, steps.pcs other same,
        steps.sema other same]
      exact sound.permits other

/-! ## The bag that it is -/

/-- A step of one thread that neither puts an element in nor takes one. -/
structure Calm (before after : State Thread Address Element) (thread : Thread) : Prop where
  steps : Steps before after thread
  enqueued : ∀ ptr, (after.producers ptr).enqueued = (before.producers ptr).enqueued
  headIndex : ∀ ptr, (after.producers ptr).headIndex = (before.producers ptr).headIndex
  taken : after.taken thread = before.taken thread

/-- What a step of one thread does to the elements in the queue. -/
inductive Effect (before after : State Thread Address Element) (thread : Thread) : Option
    (Bag.Label Thread Element) → Prop where
  | calm (calm : Calm before after thread) : Effect before after thread none
  | puts {element : Element} (steps : Steps before after thread)
      (enqueued : (after.producers thread).enqueued = (before.producers thread).enqueued ++ [element])
      (headIndex : ∀ ptr, (after.producers ptr).headIndex = (before.producers ptr).headIndex)
      (taken : after.taken thread = before.taken thread) : Effect before after thread (some (.put element))
  | takes {ptr : Thread} {element : Element} (steps : Steps before after thread)
      (enqueued : ∀ ptr, (after.producers ptr).enqueued = (before.producers ptr).enqueued)
      (others : ∀ other, other ≠ ptr → (after.producers other).headIndex = (before.producers other).headIndex)
      (next : (before.producers ptr).enqueued[(before.producers ptr).headIndex]? = some element)
      (headIndex : (after.producers ptr).headIndex = (before.producers ptr).headIndex + 1)
      (taken : after.taken thread = before.taken thread ++ [element]) : Effect before after thread
      (some (.take thread element))

structure Keeps (noexceptCtor : Bool) (before after : State Thread Address Element) (thread : Thread)
    (seen : Option (Bag.Label Thread Element)) : Prop where
  sound : Sound noexceptCtor after
  effect : Effect before after thread seen

omit [DecidableEq Address] in
/-- What has to be shown of a thread that puts nothing in and takes nothing. -/
theorem Sound.of_calm (sound : Sound noexceptCtor before) (calm : Calm before after thread)
    (defined : after.undefined = false)
    (producers : ∀ ptr, ImplicitProducer.Sound noexceptCtor (after.producers ptr))
    (sema : LightweightSemaphore.Valid after.sema)
    (calls : (after.pcs thread).Calls (after.sema.pcs thread))
    (idle : ∀ ptr, (after.pcs thread).ptr ≠ some ptr → ∃ result, (after.producers ptr).consumers thread =
      .outside result)
    (found : (after.pcs thread).Found)
    (listed : thread ∉ after.producerList → after.pcs thread ≠ .enqueue ∧ thread ∉ before.producerList)
    (owes : before.sema.signalled + before.owes thread = after.sema.signalled + after.owes thread)
    (permits : after.sema.returned thread = (after.dequeued thread).length + after.permits thread) :
    Keeps noexceptCtor before after thread none := by
  refine ⟨sound.of_steps calm.steps defined producers sema calls idle found (fun absent => ?_) ?_ ?_ permits,
    .calm calm⟩
  · obtain ⟨apart, unlisted⟩ := listed absent
    rw [calm.enqueued]
    exact ⟨apart, (sound.listed thread unlisted).2⟩
  · rw [calm.enqueued, owes]
  · rw [calm.taken, Finset.sum_congr rfl fun ptr _ => calm.headIndex ptr]

end Ndnperf.Cxx.BlockingConcurrentQueue

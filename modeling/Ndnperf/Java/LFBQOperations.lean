import Mathlib.Data.List.Basic
import Ndnperf.Java.LFBQ
import Ndnperf.Library.Lockstep

namespace Ndnperf.Java.LFBQ

open Library.Transition Library.Lockstep

/-! `LFBQ.java` and what it inherits, one operation after the other. -/

/-- The queue between two operations: `deque` in order, and the threads in `consumerWorker`. -/
structure Queue (Element Consumer : Type) where
  deque : List Element
  consumerWorker : Nat → Option Consumer

/-- `register` is a `take` that finds the queue empty, up to its `park`. -/
inductive Operation (Element Consumer : Type) where
  | offer (element : Element)
  | put (element : Element)
  | offerTimed (element : Element)
  | add (element : Element)
  | take (interrupted : Bool)
  | register (consumer : Consumer)
  | poll
  | drainTo
  | drainToLimit (limit : Int)
  | remainingCapacity
deriving DecidableEq

/-- What an operation returns; for `drainTo` also what it has put into the collection. -/
inductive Answer (Element : Type) where
  | done
  | accepted (result : Bool)
  | element (value : Option Element)
  | drained (count : Int) (collection : List Element)
  | capacity (remaining : Int)
deriving DecidableEq

structure Response (Element Consumer : Type) where
  answer : Answer Element
  unparked : List Consumer
deriving DecidableEq

variable {Element Consumer : Type}

/-- The loop of `offer` from `index` on: the threads it unparks, and the slots it leaves. -/
def notifyConsumers (consumerWorker : Nat → Option Consumer) (index : Nat) :
    Nat → List Consumer × (Nat → Option Consumer)
  | 0 => ([], consumerWorker)
  | remaining + 1 =>
      match consumerWorker index with
      | some threadToNotify =>
          let rest := notifyConsumers (Function.update consumerWorker index none) (index + 1) remaining
          (threadToNotify :: rest.1, rest.2)
      | none => notifyConsumers consumerWorker (index + 1) remaining

namespace Queue

def initial : Queue Element Consumer := { deque := [], consumerWorker := fun _ => none }

variable (slots : Nat) (queue : Queue Element Consumer)

def offer (element : Element) : Response Element Consumer × Queue Element Consumer :=
  let notified := notifyConsumers queue.consumerWorker 0 slots
  ({ answer := .accepted true, unparked := notified.1 },
    { deque := queue.deque ++ [element], consumerWorker := notified.2 })

def put (element : Element) : Response Element Consumer × Queue Element Consumer :=
  let offered := queue.offer slots element
  ({ offered.1 with answer := .done }, offered.2)

/-- `offer(e, timeout, unit)` -/
def offerTimed (element : Element) : Response Element Consumer × Queue Element Consumer :=
  let inserted := queue.put slots element
  ({ inserted.1 with answer := .accepted true }, inserted.2)

/-- Inherited: `add(e)` returns `offerLast(e)`. -/
def add (element : Element) : Response Element Consumer × Queue Element Consumer :=
  ({ answer := .accepted true, unparked := [] }, { queue with deque := queue.deque ++ [element] })

def pollFirst : Option Element × Queue Element Consumer :=
  (queue.deque.head?, { queue with deque := queue.deque.tail })

/-- Not enabled on an empty queue, where `take` goes on as `register`. -/
def take (interrupted : Bool) : Option (Response Element Consumer × Queue Element Consumer) :=
  if interrupted then some ({ answer := .element none, unparked := [] }, queue)
  else
    match queue.pollFirst with
    | (some value, rest) => some ({ answer := .element (some value), unparked := [] }, rest)
    | (none, _) => none

/-- Not enabled without a free slot: then `take` comes back after `parkNanos`. -/
def register (consumer : Consumer) : Option (Response Element Consumer × Queue Element Consumer) :=
  match queue.deque, (List.range slots).find? fun index => (queue.consumerWorker index).isNone with
  | [], some index =>
      some ({ answer := .done, unparked := [] },
        { queue with consumerWorker := Function.update queue.consumerWorker index (some consumer) })
  | _, _ => none

/-- `poll(l, timeUnit)` -/
def poll : Response Element Consumer × Queue Element Consumer :=
  ({ answer := .element queue.pollFirst.1, unparked := [] }, queue.pollFirst.2)

def remainingCapacity : Response Element Consumer × Queue Element Consumer :=
  ({ answer := .capacity 0, unparked := [] }, queue)

def drainTo : Response Element Consumer × Queue Element Consumer :=
  ({ answer := .drained 0 [], unparked := [] }, queue)

/-- `drainTo(collection, i)` -/
def drainToLimit (_limit : Int) : Response Element Consumer × Queue Element Consumer :=
  ({ answer := .drained 0 [], unparked := [] }, queue)

def perform : Operation Element Consumer → Option (Response Element Consumer × Queue Element Consumer)
  | .offer element => some (queue.offer slots element)
  | .put element => some (queue.put slots element)
  | .offerTimed element => some (queue.offerTimed slots element)
  | .add element => some (queue.add element)
  | .take interrupted => queue.take interrupted
  | .register consumer => queue.register slots consumer
  | .poll => some queue.poll
  | .drainTo => some queue.drainTo
  | .drainToLimit limit => some (queue.drainToLimit limit)
  | .remainingCapacity => some queue.remainingCapacity

end Queue

/-! ## The reference: an unbounded first-in first-out queue -/

namespace Fifo

def next (elements : List Element) : Operation Element Consumer → List Element
  | .offer element | .put element | .offerTimed element | .add element => elements ++ [element]
  | .take _ | .poll => elements.tail
  | .drainTo => []
  | .drainToLimit limit => elements.drop limit.toNat
  | .register _ | .remainingCapacity => elements

/-- A `take` is asked for the head of a queue that has one, and a queue that
always accepts for a capacity other than 0. -/
def Answers (elements : List Element) : Operation Element Consumer → Answer Element → Prop
  | .offer _, answer | .offerTimed _, answer | .add _, answer => answer = .accepted true
  | .put _, answer | .register _, answer => answer = .done
  | .take _, answer => ∀ head, elements.head? = some head → answer = .element (some head)
  | .poll, answer => answer = .element elements.head?
  | .drainTo, answer => answer = .drained elements.length elements
  | .drainToLimit limit, answer =>
      answer = .drained (elements.take limit.toNat).length (elements.take limit.toNat)
  | .remainingCapacity, answer => ∃ remaining, remaining ≠ 0 ∧ answer = .capacity remaining

end Fifo

def Operation.Inserts : Operation Element Consumer → Prop
  | .offer _ | .put _ | .offerTimed _ | .add _ => True
  | _ => False

/-- A thread in one of the slots. -/
def Queue.Registered (slots : Nat) (queue : Queue Element Consumer) (consumer : Consumer) : Prop :=
  ∃ index, index < slots ∧ queue.consumerWorker index = some consumer

/-- `LFBQ` beside the reference: what it answers, what it holds, and whom an insertion wakes. -/
def fifo (slots : Nat) :
    Comparison (Queue Element Consumer) (List Element) (Operation Element Consumer) (Response Element Consumer) where
  perform := Queue.perform slots
  contents := Queue.deque
  Answers queue elements operation response := Fifo.Answers elements operation response.answer ∧
    (operation.Inserts → ∀ consumer, queue.Registered slots consumer → consumer ∈ response.unparked)
  next := Fifo.next

/-- The operations that `LFBQ` has no code for find nothing to do. -/
def Conforms (slots : Nat) (queue : Queue Element Consumer) : Operation Element Consumer → Prop
  | .drainTo => queue.deque = []
  | .drainToLimit limit => limit ≤ 0 ∨ queue.deque = []
  | .remainingCapacity => False
  | .add _ => ∀ consumer, ¬queue.Registered slots consumer
  | .take interrupted => interrupted = false ∨ queue.deque = []
  | _ => True

/-! ## Each operation beside the reference -/

variable {slots : Nat} {queue : Queue Element Consumer}

theorem notifyConsumers_unparked {consumerWorker : Nat → Option Consumer} {consumer : Consumer} {first remaining : Nat}
    {index : Nat} (above : first ≤ index) (below : index < first + remaining)
    (stored : consumerWorker index = some consumer) :
    consumer ∈ (notifyConsumers consumerWorker first remaining).1 := by
  induction remaining generalizing consumerWorker first with
  | zero => omega
  | succ remaining ih =>
      simp only [notifyConsumers]
      by_cases here : index = first
      · subst here
        simp only [stored, List.mem_cons, true_or]
      · have later : first + 1 ≤ index := Nat.lt_of_le_of_ne above (Ne.symm here)
        have within : index < first + 1 + remaining := by omega
        cases consumerWorker first with
        | none => exact ih later within stored
        | some threadToNotify =>
            refine List.mem_cons_of_mem _ (ih later within ?_)
            rwa [Function.update_of_ne here]

theorem Queue.offer_notifies (element : Element) {consumer : Consumer} (registered : queue.Registered slots consumer) :
    consumer ∈ (queue.offer slots element).1.unparked := by
  obtain ⟨index, inside, stored⟩ := registered
  exact notifyConsumers_unparked (Nat.zero_le index) (by omega) stored

theorem Queue.take_answer {interrupted : Bool} {response : Response Element Consumer} {after : Queue Element Consumer}
    (taken : queue.take interrupted = some (response, after)) :
    (interrupted = true ∧ response.answer = .element none ∧ after = queue) ∨
      ∃ value rest, interrupted = false ∧ queue.deque = value :: rest ∧
        response.answer = .element (some value) ∧ after = { queue with deque := rest } := by
  cases interrupted with
  | true =>
      simp only [Queue.take, if_true, Option.some.injEq, Prod.mk.injEq] at taken
      obtain ⟨answered, same⟩ := taken
      subst answered
      exact .inl ⟨rfl, rfl, same.symm⟩
  | false =>
      cases held : queue.deque with
      | nil => simp [Queue.take, Queue.pollFirst, held] at taken
      | cons value rest =>
          simp only [Queue.take, Queue.pollFirst, held, List.head?_cons, List.tail_cons, Bool.false_eq_true, if_false,
            Option.some.injEq, Prod.mk.injEq] at taken
          obtain ⟨answered, same⟩ := taken
          subst answered
          exact .inr ⟨value, rest, rfl, rfl, rfl, same.symm⟩

theorem Queue.register_answer {consumer : Consumer} {response : Response Element Consumer}
    {after : Queue Element Consumer} (registered : queue.register slots consumer = some (response, after)) :
    response.answer = .done ∧ queue.deque = [] ∧ ∃ index, index < slots ∧ queue.consumerWorker index = none ∧
      (∀ other, other < index → queue.consumerWorker other ≠ none) ∧
      after = { queue with consumerWorker := Function.update queue.consumerWorker index (some consumer) } := by
  unfold Queue.register at registered
  split at registered
  · rename_i index empty found
    obtain ⟨free, inside, used⟩ := List.find?_range_eq_some.mp found
    simp only [Option.some.injEq, Prod.mk.injEq] at registered
    obtain ⟨answered, moved⟩ := registered
    subst answered moved
    refine ⟨rfl, empty, index, List.mem_range.mp inside, Option.isNone_iff_eq_none.mp free, fun other below => ?_, rfl⟩
    exact Option.isSome_iff_ne_none.mp (by simpa using used other below)
  · simp at registered

/-- One operation is answered as by the reference exactly if it conforms. -/
theorem perform_conforms {operation : Operation Element Consumer} {response : Response Element Consumer}
    {after : Queue Element Consumer} (performed : queue.perform slots operation = some (response, after)) :
    ((Fifo.Answers queue.deque operation response.answer ∧
        (operation.Inserts → ∀ consumer, queue.Registered slots consumer → consumer ∈ response.unparked)) ∧
      after.deque = Fifo.next queue.deque operation) ↔ Conforms slots queue operation := by
  cases operation with
  | offer element | put element | offerTimed element =>
      simp only [Queue.perform, Option.some.injEq] at performed
      have answered : response = _ := (congrArg Prod.fst performed).symm
      have moved : after = _ := (congrArg Prod.snd performed).symm
      subst answered moved
      exact iff_of_true ⟨⟨rfl, fun _ _ registered => queue.offer_notifies element registered⟩, rfl⟩ trivial
  | add element =>
      simp only [Queue.perform, Queue.add, Option.some.injEq, Prod.mk.injEq] at performed
      obtain ⟨answered, moved⟩ := performed
      subst answered moved
      simp [Fifo.Answers, Fifo.next, Operation.Inserts, Conforms]
  | take interrupted =>
      rcases queue.take_answer performed with ⟨flagged, answered, same⟩ | ⟨value, rest, clear, held, answered, moved⟩
      · subst flagged same
        cases held : after.deque <;>
          simp [Fifo.Answers, Fifo.next, Operation.Inserts, Conforms, answered, held]
      · subst clear moved
        simp [Fifo.Answers, Fifo.next, Operation.Inserts, Conforms, answered, held]
  | register consumer =>
      obtain ⟨answered, _, _, _, _, _, moved⟩ := queue.register_answer performed
      exact iff_of_true ⟨⟨answered, False.elim⟩, (congrArg Queue.deque moved :)⟩ trivial
  | poll =>
      simp only [Queue.perform, Queue.poll, Option.some.injEq, Prod.mk.injEq] at performed
      obtain ⟨answered, moved⟩ := performed
      subst answered moved
      exact iff_of_true ⟨⟨rfl, False.elim⟩, rfl⟩ trivial
  | drainTo =>
      simp only [Queue.perform, Queue.drainTo, Option.some.injEq, Prod.mk.injEq] at performed
      obtain ⟨answered, moved⟩ := performed
      subst answered moved
      cases held : queue.deque <;> simp [Fifo.Answers, Fifo.next, Operation.Inserts, Conforms, held]
  | drainToLimit limit =>
      simp only [Queue.perform, Queue.drainToLimit, Option.some.injEq, Prod.mk.injEq] at performed
      obtain ⟨answered, moved⟩ := performed
      subst answered moved
      by_cases low : limit ≤ 0
      · simp [Fifo.Answers, Fifo.next, Operation.Inserts, Conforms, low, Int.toNat_of_nonpos low]
      · obtain ⟨count, positive⟩ : ∃ count, limit.toNat = count + 1 := Nat.exists_eq_succ_of_ne_zero (by omega)
        cases held : queue.deque <;> simp [Fifo.Answers, Fifo.next, Operation.Inserts, Conforms, low, positive, held]
  | remainingCapacity =>
      simp only [Queue.perform, Queue.remainingCapacity, Option.some.injEq, Prod.mk.injEq] at performed
      obtain ⟨answered, moved⟩ := performed
      subst answered moved
      simp [Fifo.Answers, Conforms]

/-- Whatever is in the queue and whoever waits for it, a sequence of operations
is answered as by an unbounded first-in first-out queue, with a wake-up at each
insertion, exactly if `drainTo` finds nothing to move, `remainingCapacity` is
not asked, `add` finds nobody waiting and no interrupted thread takes. -/
theorem refines_fifo_iff (slots : Nat) (queue : Queue Element Consumer)
    (operations : List (Operation Element Consumer)) :
    (fifo slots).Refines queue queue.deque operations ↔
      ((fifo slots).system queue).Along (Conforms slots) queue operations :=
  Comparison.refines_iff_along (fun performed => perform_conforms performed) queue queue operations

/-- Two elements are not drained, the capacity is 0, and a thread that waits is not told of an `add`. -/
theorem operations_not_fifo :
    ¬(fifo 1).Refines (@Queue.initial Nat Nat) []
        [.offer 7, .offer 8, .drainTo] ∧
      ¬(fifo 1).Refines (@Queue.initial Nat Nat) [] [.remainingCapacity] ∧
      ¬(fifo 1).Refines (@Queue.initial Nat Nat) [] [.register 0, .add 7] := by
  refine ⟨fun refines => ?_, fun refines => ?_, fun refines => ?_⟩
  · have first := refines.2 _ _ rfl
    have second := first.2.2 _ _ rfl
    have drained := (second.2.2 _ _ rfl).1.1
    simp [fifo, Fifo.Answers, Fifo.next] at drained
  · have asked := (refines.2 _ _ rfl).1.1
    simp [Fifo.Answers] at asked
  · have registered := refines.2 _ _ rfl
    have added := (registered.2.2 _ _ rfl).1.2 trivial 0 ⟨0, Nat.one_pos, rfl⟩
    simp at added

/-! ## The operations as runs of their atomic steps -/

section Steps

variable {Producer : Type} [DecidableEq Producer] [DecidableEq Consumer]
  {state : State Element Producer Consumer} {producer : Producer} {consumer : Consumer}

/-- What an operation sees of the queue and its threads. -/
def State.held (state : State Element Producer Consumer) : Queue Element Consumer :=
  { deque := state.deque, consumerWorker := state.consumerWorker }

/-- The loop of `offer`, when nobody else moves. -/
theorem notifyConsumers_runs {index remaining : Nat} (size : index + remaining = slots)
    (here : state.producers producer = .get index) :
    (system slots).CanReach (fun label => label = .producer producer)
      (fun after => after.producers producer = .outside ∧ after.deque = state.deque ∧
        after.consumerWorker = (notifyConsumers state.consumerWorker index remaining).2 ∧
        ∀ consumer, state.permit consumer = true ∨
          consumer ∈ (notifyConsumers state.consumerWorker index remaining).1 →
            after.permit consumer = true) state := by
  induction remaining generalizing state index with
  | zero =>
      have left : (system slots).step state (.producer producer) = some (state.producerAt producer .outside) := by
        have past : ¬index < slots := by omega
        simp only [system, step, offerStep, here, past, if_false]
      refine System.canReach_of_step rfl left ⟨Function.update_self .., rfl, rfl, fun consumer noticed => ?_⟩
      exact noticed.resolve_right (by simp [notifyConsumers])
  | succ remaining ih =>
      have inside : index < slots := by omega
      cases stored : state.consumerWorker index with
      | none =>
          have moved : (system slots).step state (.producer producer) =
              some (state.producerAt producer (.get (index + 1))) := by
            simp only [system, step, offerStep, here, inside, if_true, stored]
          have further := @ih (state.producerAt producer (.get (index + 1))) (index + 1) (by omega)
              (Function.update_self ..)
          simp only [notifyConsumers, stored]
          exact System.canReach_cons rfl moved further
      | some threadToNotify =>
          let read := state.producerAt producer (.set index threadToNotify)
          let cleared := (read.setSlot index none).producerAt producer (.unpark index threadToNotify)
          let woken := (cleared.setPermit threadToNotify true).producerAt producer (.get (index + 1))
          have reads : (system slots).step state (.producer producer) = some read := by
            simp only [system, step, offerStep, here, inside, if_true, stored, read]
          have clears : (system slots).step read (.producer producer) = some cleared := by
            simp only [system, step, offerStep, read, State.producerAt, Function.update_self, cleared]
          have wakes : (system slots).step cleared (.producer producer) = some woken := by
            simp only [system, step, offerStep, cleared, State.producerAt, Function.update_self, woken]
          have further := @ih woken (index + 1) (by omega) (Function.update_self ..)
          refine System.canReach_cons rfl reads (System.canReach_cons rfl clears (System.canReach_cons rfl wakes ?_))
          obtain ⟨labels, after, chosen, ran, outside, same, slotsAfter, permits⟩ := further
          refine ⟨labels, after, chosen, ran, outside, same, ?_, fun consumer noticed => permits consumer ?_⟩
          · simp only [notifyConsumers, stored]
            exact slotsAfter
          · simp only [notifyConsumers, stored, List.mem_cons] at noticed
            by_cases same : consumer = threadToNotify
            · subst same
              exact .inl (Function.update_self ..)
            · refine (noticed.imp_right fun listed => listed.resolve_left same).imp_left fun permitted => ?_
              simpa [woken, cleared, read, State.producerAt, State.setPermit, State.setSlot,
                Function.update_of_ne same] using permitted

/-- `offer` as its steps: the queue it leaves, and a permit for each thread it unparks. -/
theorem offer_runs (outside : state.producers producer = .outside) (element : Element) :
    (system slots).CanReach (fun label => label = .offer producer element ∨ label = .producer producer)
      (fun after => after.producers producer = .outside ∧ after.held = (state.held.offer slots element).2 ∧
        ∀ consumer ∈ (state.held.offer slots element).1.unparked, after.permit consumer = true) state := by
  have called : (system slots).step state (.offer producer element) =
      some ({ state with deque := state.deque ++ [element] }.producerAt producer (.get 0)) := by
    simp only [system, step, offerLast, outside, if_true]
  have loop := notifyConsumers_runs (Nat.zero_add slots)
    (Function.update_self producer (.get 0) state.producers :
      ({ state with deque := state.deque ++ [element] }.producerAt producer (.get 0)).producers producer = .get 0)
  refine System.canReach_cons (.inl rfl) called ?_
  obtain ⟨labels, after, chosen, ran, left, deque, workers, permits⟩ := loop
  refine ⟨labels, after, fun label member => .inr (chosen label member), ran, left, ?_, fun consumer unparked => ?_⟩
  · simp only [State.held, Queue.offer, deque, workers, State.producerAt]
  · exact permits consumer (.inr unparked)

/-- `take` as its steps, where it finds an element. -/
theorem take_runs {response : Response Element Consumer} {rest : Queue Element Consumer}
    (outside : state.consumers consumer = .outside) (taken : state.held.take false = some (response, rest)) :
    (system slots).CanReach (fun label => label = .consumer consumer)
      (fun after => after.consumers consumer = .outside ∧ after.held = rest) state := by
  rcases Queue.take_answer taken with ⟨interrupted, _⟩ | ⟨value, remaining, _, found, _, left⟩
  · simp at interrupted
  · have called : (system slots).step state (.consumer consumer) = some (state.consumerAt consumer .poll) := by
      simp only [system, step, takeStep, outside]
    have polled : (system slots).step (state.consumerAt consumer .poll) (.consumer consumer) =
        some ({ state.consumerAt consumer .poll with deque := remaining }.consumerAt consumer .outside) := by
      have deque : (state.consumerAt consumer .poll).deque = value :: remaining := found
      simp only [system, step, takeStep, State.consumerAt, Function.update_self] at deque ⊢
      simp only [deque]
    refine System.canReach_cons rfl called (System.canReach_of_step rfl polled ⟨Function.update_self .., ?_⟩)
    simp only [left, State.held, State.consumerAt]

/-- The search of `take` for a free slot, past those in use. -/
theorem search_runs {first distance : Nat} (inside : first + distance < slots)
    (used : ∀ index, first ≤ index → index < first + distance → state.consumerWorker index ≠ none)
    (free : state.consumerWorker (first + distance) = none) (here : state.consumers consumer = .get first) :
    (system slots).CanReach (fun label => label = .consumer consumer)
      (fun after => after.consumers consumer = .compareAndSet (first + distance) ∧ after.held = state.held) state := by
  have within : first < slots := by omega
  induction distance generalizing first state with
  | zero =>
      have found : (system slots).step state (.consumer consumer) =
          some (state.consumerAt consumer (.compareAndSet first)) := by
        simp only [Nat.add_zero] at free
        simp only [system, step, takeStep, here, within, if_true, free]
      exact System.canReach_of_step rfl found ⟨Function.update_self .., rfl⟩
  | succ distance ih =>
      obtain ⟨thread, stored⟩ := Option.ne_none_iff_exists'.mp (used first (Nat.le_refl _) (by omega))
      have moved : (system slots).step state (.consumer consumer) =
          some (state.consumerAt consumer (.get (first + 1))) := by
        simp only [system, step, takeStep, here, within, if_true, stored]
      have shifted : first + 1 + distance = first + (distance + 1) := by omega
      have further := @ih (state.consumerAt consumer (.get (first + 1))) (first + 1) (by omega)
        (fun index above below => used index (by omega) (by omega)) (shifted ▸ free)
          (Function.update_self ..) (by omega)
      rw [shifted] at further
      exact System.canReach_cons rfl moved further

/-- `take` as its steps, where it finds the queue empty and a slot free. -/
theorem register_runs {response : Response Element Consumer} {rest : Queue Element Consumer}
    (outside : state.consumers consumer = .outside)
    (registered : state.held.register slots consumer = some (response, rest)) :
    (system slots).CanReach (fun label => label = .consumer consumer)
      (fun after => after.consumers consumer = .park ∧ after.held = rest) state := by
  obtain ⟨_, empty, index, inside, free, used, filled⟩ := Queue.register_answer registered
  let polling := state.consumerAt consumer .poll
  let searching := polling.consumerAt consumer (.get 0)
  have called : (system slots).step state (.consumer consumer) = some polling := by
    simp only [system, step, takeStep, outside, polling]
  have polled : (system slots).step polling (.consumer consumer) = some searching := by
    have deque : state.deque = [] := empty
    simp only [system, step, takeStep, deque, polling, State.consumerAt, Function.update_self, searching]
  have searched : (system slots).CanReach (fun label => label = .consumer consumer)
      (fun after => after.consumers consumer = .compareAndSet (0 + index) ∧ after.held = searching.held) searching :=
    search_runs (by omega) (fun other _ below => used other (by omega)) ((Nat.zero_add index).symm ▸ free)
      (Function.update_self ..)
  refine System.canReach_cons rfl called (System.canReach_cons rfl polled (System.canReach_trans searched ?_))
  intro found reached
  obtain ⟨here, same⟩ := reached
  simp only [Nat.zero_add] at here
  have vacant : found.consumerWorker index = none := (congrFun (congrArg Queue.consumerWorker same) index).trans free
  have stored : (system slots).step found (.consumer consumer) =
      some ((found.setSlot index (some consumer)).consumerAt consumer .park) := by
    simp only [system, step, takeStep, here, vacant]
  refine System.canReach_of_step rfl stored ⟨Function.update_self .., ?_⟩
  have deque : found.deque = state.deque := congrArg Queue.deque same
  have workers : found.consumerWorker = state.consumerWorker := congrArg Queue.consumerWorker same
  simp only [filled, State.held, State.setSlot, State.consumerAt, deque, workers]

end Steps

end Ndnperf.Java.LFBQ

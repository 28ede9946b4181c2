import Ndnperf.Library.Fifo
import Ndnperf.Library.Refinement
import Ndnperf.Cxx.ProducerSteps

namespace Ndnperf.Cxx.ImplicitProducer

open Library Library.Word Library.Transition Library.Threads Library.Ownership

variable {Thread Address Element : Type} [DecidableEq Thread] [DecidableEq Address]
  {before after state : State Thread Address Element} {thread : Thread} {noexceptCtor : Bool}

/-! ## What a step does to the queue -/

/-- The element that the next step of the thread that enqueues offers. -/
def ProducerPc.offered : ProducerPc Address Element → List Element
  | .storeTailIndex element => [element]
  | _ => []

/-- What a step of the thread that enqueues leaves to those that dequeue. -/
structure Offers (before after : State Thread Address Element) : Prop where
  enqueued : after.enqueued = before.enqueued ++ before.producer.offered
  drawn : after.drawn = before.drawn
  headIndex : after.headIndex = before.headIndex
  consumers : after.consumers = before.consumers

omit [DecidableEq Thread] [DecidableEq Address] in
theorem offers_nothing (nothing : before.producer.offered = []) (enqueued : after.enqueued = before.enqueued)
    (drawn : after.drawn = before.drawn) (headIndex : after.headIndex = before.headIndex)
    (consumers : after.consumers = before.consumers) : Offers before after := by
  refine ⟨?_, drawn, headIndex, consumers⟩
  rw [nothing, List.append_nil, enqueued]

omit [DecidableEq Thread] in
theorem offers_constructIn (nothing : before.producer.offered = []) (block : Address) (element : Element)
    (next : ProducerPc Address Element) : Offers before (before.constructIn block element next) := by
  rw [State.constructIn]
  split
  · exact offers_nothing nothing rfl rfl rfl rfl
  · exact offers_nothing nothing rfl rfl rfl rfl

omit [DecidableEq Thread] in
theorem offers_of_produce {outcome : Outcome Address} (moved : produce noexceptCtor before outcome = some after) :
    Offers before after := by
  cases here : before.producer with
  | outside result => simp only [ImplicitProducer.produce, here, reduceCtorEq] at moved
  | loadHead | storeKey | storeTail | storeValue | rewind | clearEntry =>
      simp only [ImplicitProducer.produce, here, Option.some.injEq] at moved
      subst moved
      exact offers_nothing (by rw [here]; rfl) rfl rfl rfl rfl
  | loadEntry element =>
      simp only [ImplicitProducer.produce, here] at moved
      split at moved
      · exact Option.some.inj moved ▸ offers_nothing (by rw [here]; rfl) rfl rfl rfl rfl
      · split at moved <;> exact Option.some.inj moved ▸ offers_nothing (by rw [here]; rfl) rfl rfl rfl rfl
  | newBlockIndex element =>
      simp only [ImplicitProducer.produce, here] at moved
      split at moved <;> exact Option.some.inj moved ▸ offers_nothing (by rw [here]; rfl) rfl rfl rfl rfl
  | requisitionBlock element entry =>
      simp only [ImplicitProducer.produce, here] at moved
      split at moved
      · exact Option.some.inj moved ▸ offers_nothing (by rw [here]; rfl) rfl rfl rfl rfl
      · split at moved
        · cases moved
        · exact Option.some.inj moved ▸ offers_nothing (by rw [here]; rfl) rfl rfl rfl rfl
  | constructFirst element entry block =>
      simp only [ImplicitProducer.produce, here] at moved
      split at moved
      · exact Option.some.inj moved ▸ offers_nothing (by rw [here]; rfl) rfl rfl rfl rfl
      · exact Option.some.inj moved ▸ offers_constructIn (by rw [here]; rfl) _ _ _
  | construct element =>
      simp only [ImplicitProducer.produce, here] at moved
      split at moved
      · exact Option.some.inj moved ▸ offers_nothing (by rw [here]; rfl) rfl rfl rfl rfl
      · split at moved
        · exact Option.some.inj moved ▸ offers_nothing (by rw [here]; rfl) rfl rfl rfl rfl
        · exact Option.some.inj moved ▸ offers_constructIn (by rw [here]; rfl) _ _ _
  | storeTailIndex element =>
      simp only [ImplicitProducer.produce, here, Option.some.injEq] at moved
      subst moved
      exact ⟨by rw [here]; rfl, rfl, rfl, rfl⟩
  | addToFreeList block =>
      simp only [ImplicitProducer.produce, here, Option.some.injEq] at moved
      subst moved
      rw [State.giveBack]
      split <;> exact offers_nothing (by rw [here]; rfl) rfl rfl rfl rfl

theorem records_of_consume (moved : consume before thread = some after) :
    after.enqueued = before.enqueued ∧ before.drawn ≤ after.drawn := by
  cases here : before.consumers thread with
  | outside => simp only [ImplicitProducer.consume, here, reduceCtorEq] at moved
  | loadTail | loadOvercommit | loadOptimistic | compare | addOvercommit | addHead | loadBlockIndex
  | loadIndexTail | loadKey | setEmpty | clearEntry =>
      simp only [ImplicitProducer.consume, here, Option.some.injEq] at moved
      exact moved ▸ ⟨rfl, Nat.le_refl _⟩
  | addOptimistic =>
      simp only [ImplicitProducer.consume, here, Option.some.injEq] at moved
      exact moved ▸ ⟨rfl, Nat.le_succ _⟩
  | loadValue | moveElement =>
      simp only [ImplicitProducer.consume, here] at moved
      split at moved <;> exact Option.some.inj moved ▸ ⟨rfl, Nat.le_refl _⟩
  | addToFreeList =>
      simp only [ImplicitProducer.consume, here, Option.some.injEq] at moved
      subst moved
      rw [State.giveBack]
      split <;> exact ⟨rfl, Nat.le_refl _⟩

theorem young_of_step {label : Label Thread Address Element} (moved : step noexceptCtor before label = some after)
    (young : Young after) : Young before := by
  obtain ⟨few, fewer⟩ := young
  cases label with
  | enqueue element =>
      simp only [step] at moved
      split at moved
      · cases Option.some.inj moved
        exact ⟨few, fewer⟩
      · cases moved
  | produce outcome =>
      obtain ⟨enqueued, drawn, _, _⟩ := offers_of_produce moved
      rw [enqueued, List.length_append] at few
      exact ⟨Nat.lt_of_le_of_lt (Nat.le_add_right _ _) few, drawn ▸ fewer⟩
  | dequeue thread =>
      simp only [step] at moved
      split at moved
      · cases Option.some.inj moved
        exact ⟨few, fewer⟩
      · cases moved
  | consume thread =>
      obtain ⟨enqueued, drawn⟩ := records_of_consume moved
      exact ⟨enqueued ▸ few, Nat.lt_of_le_of_lt drawn fewer⟩

/-! ## The invariant holds -/

variable [Fintype Thread]

omit [DecidableEq Thread] [DecidableEq Address] in
/-- A call of `enqueue`; a block is taken when the last one is full. -/
theorem Sound.enqueue (sound : Sound noexceptCtor before) {result : Bool} (here : before.producer = .outside result)
    (element : Element) :
    Sound noexceptCtor
      (before.producerAt (if before.tailIndex % blockSize = 0 then .loadHead element else .construct element)) := by
  have filled := sound.filled
  have known := sound.produces
  rw [here] at filled known
  obtain ⟨least, most⟩ := filled
  rw [sound.tailIndex]
  simp only [blockSize] at least most
  split
  · rename_i whole
    refine sound.producerAt here ⟨rfl, rfl, rfl⟩ known ?_
    simp only [blockSize] at whole
    change before.enqueued.length = before.started.length * 32
    omega
  · rename_i inside
    refine sound.producerAt here ⟨rfl, rfl, rfl⟩ known ?_
    simp only [blockSize] at inside
    change before.enqueued.length < before.started.length * 32 ∧ before.started.length * 32 ≤
      before.enqueued.length + 32 ∧ (_ → before.started.length * 32 < before.enqueued.length + 32)
    omega

omit [DecidableEq Address] in
theorem Sound.dequeue (sound : Sound noexceptCtor before) {result : Option Element}
    (here : before.consumers thread = .outside result) : Sound noexceptCtor (before.consumerAt thread .loadTail) := by
  obtain ⟨image, counted⟩ := sound.counted
  exact sound.idle here (counted.enter here) ⟨rfl, rfl, rfl, rfl, rfl⟩ trivial

theorem Sound.step (sound : Sound noexceptCtor before) {label : Label Thread Address Element} (young : Young after)
    (moved : step noexceptCtor before label = some after) : Sound noexceptCtor after := by
  cases label with
  | enqueue element =>
      simp only [ImplicitProducer.step] at moved
      split at moved
      · rename_i here
        exact Option.some.inj moved ▸ sound.enqueue here element
      · cases moved
  | produce outcome => exact sound.produce young moved
  | dequeue thread =>
      simp only [ImplicitProducer.step] at moved
      split at moved
      · rename_i here
        exact Option.some.inj moved ▸ sound.dequeue here
      · cases moved
  | consume thread => exact sound.consume young moved

/-! ## The queue that it is -/

/-- The element that a thread has claimed and not returned. -/
def ConsumerPc.carried (enqueued : List Element) (pc : ConsumerPc Address Element) : Option Element :=
  match pc.place with
  | .claimed index => enqueued[index]?
  | _ => none

def State.image (state : State Thread Address Element) : Fifo.State Thread Element where
  items := state.enqueued
  claimed := state.headIndex
  carried thread := (state.consumers thread).carried state.enqueued

/-- An element is put in when the tail is stored, claimed when the head is
moved on, and brought out when the call returns. -/
def visible (state : State Thread Address Element) : Label Thread Address Element → Option (Fifo.Label Thread Element)
  | .produce _ =>
      match state.producer with
      | .storeTailIndex element => some (.put element)
      | _ => none
  | .consume thread =>
      match state.consumers thread with
      | .addHead => some (.claim thread)
      | .setEmpty _ _ block element =>
          if (state.blocks block).elementsCompletelyDequeued = blockSize - 1 then none else some (.bring thread element)
      | .addToFreeList _ _ element => some (.bring thread element)
      | _ => none
  | _ => none

omit [DecidableEq Address] [Fintype Thread] in
theorem image_of_consumers {pc : ConsumerPc Address Element} (enqueued : after.enqueued = before.enqueued)
    (consumers : after.consumers = Function.update before.consumers thread pc) :
    after.image = { before.image.carry thread (pc.carried before.enqueued) with claimed := after.headIndex } := by
  have carried : (fun other => (after.consumers other).carried after.enqueued) =
      Function.update (fun other => (before.consumers other).carried before.enqueued) thread
        (pc.carried before.enqueued) := by
    rw [enqueued, consumers]
    funext other
    by_cases same : other = thread
    · rw [same, Function.update_self, Function.update_self]
    · rw [Function.update_of_ne same, Function.update_of_ne same]
  rw [State.image, carried, enqueued]
  rfl

variable [DecidableEq Element]

omit [DecidableEq Address] [Fintype Thread] in
/-- A step of a thread that neither claims an element nor returns one. -/
theorem image_stays {pc : ConsumerPc Address Element} (enqueued : after.enqueued = before.enqueued)
    (headIndex : after.headIndex = before.headIndex)
    (consumers : after.consumers = Function.update before.consumers thread pc)
    (same : pc.carried before.enqueued = (before.consumers thread).carried before.enqueued) :
    Fifo.system.run before.image [] = some after.image := by
  have kept : before.image.carry thread ((before.consumers thread).carried before.enqueued) = before.image := by
    rw [Fifo.State.carry]
    exact congrArg (Fifo.State.mk _ _) (Function.update_eq_self thread _)
  rw [image_of_consumers enqueued consumers, same, kept, headIndex]
  rfl

omit [DecidableEq Address] in
/-- A thread that moves the head on claims the element that stands there. -/
theorem Sound.corresponds_claim (sound : Sound noexceptCtor before) (here : before.consumers thread = .addHead)
    (enqueued : after.enqueued = before.enqueued) (headIndex : after.headIndex = before.headIndex + 1)
    (consumers : after.consumers = Function.update before.consumers thread (.loadBlockIndex before.headIndex)) :
    Fifo.system.run before.image [.claim thread] = some after.image := by
  obtain ⟨image, counted⟩ := sound.counted
  have offered : before.headIndex < before.enqueued.length := by
    rw [counted.headIndex, ← counted.tail]
    exact counted.sound.head_lt ((counted.places thread).trans (congrArg ConsumerPc.place here))
  have idle : before.image.carried thread = none := by
    change (before.consumers thread).carried before.enqueued = none
    rw [here]
    rfl
  have next : before.image.items[before.image.claimed]? = some before.enqueued[before.headIndex] :=
    List.getElem?_eq_getElem offered
  have carried : (ConsumerPc.loadBlockIndex before.headIndex : ConsumerPc Address Element).carried before.enqueued =
      some before.enqueued[before.headIndex] := List.getElem?_eq_getElem offered
  rw [System.run_singleton]
  simp only [Fifo.system, Fifo.step, idle, next, Option.some.injEq]
  rw [image_of_consumers enqueued consumers, headIndex, carried]
  rfl

omit [DecidableEq Address] [Fintype Thread] in
/-- A thread that returns brings out its element. -/
theorem corresponds_bring {index : Nat} {element : Element} (enqueued : after.enqueued = before.enqueued)
    (headIndex : after.headIndex = before.headIndex)
    (consumers : after.consumers = Function.update before.consumers thread (.outside (some element)))
    (place : (before.consumers thread).place = .claimed index) (present : before.enqueued[index]? = some element) :
    Fifo.system.run before.image [.bring thread element] = some after.image := by
  have carries : before.image.carried thread = some element := by
    change (before.consumers thread).carried before.enqueued = some element
    rw [ConsumerPc.carried, place]
    exact present
  rw [System.run_singleton]
  simp only [Fifo.system, Fifo.step, if_pos carries, Option.some.injEq]
  rw [image_of_consumers enqueued consumers, headIndex]
  rfl

theorem Sound.corresponds_consume (sound : Sound noexceptCtor before) (young : Young before)
    (moved : ImplicitProducer.consume before thread = some after) :
    Fifo.system.run before.image (visible before (.consume thread)).toList = some after.image := by
  have own := sound.knows thread
  cases here : before.consumers thread with
  | outside => simp only [ImplicitProducer.consume, here, reduceCtorEq] at moved
  | loadTail | loadOvercommit | addOptimistic | addOvercommit | loadBlockIndex | loadIndexTail | loadKey | clearEntry =>
      simp only [ImplicitProducer.consume, here, Option.some.injEq] at moved
      subst moved
      simp only [visible, here]
      exact image_stays rfl rfl rfl (by rw [here]; rfl)
  | loadOptimistic | compare =>
      simp only [ImplicitProducer.consume, here, Option.some.injEq] at moved
      subst moved
      simp only [visible, here]
      refine image_stays rfl rfl rfl ?_
      rw [here]
      split <;> rfl
  | addHead =>
      simp only [ImplicitProducer.consume, here, Option.some.injEq] at moved
      subst moved
      simp only [visible, here]
      refine sound.corresponds_claim here rfl ?_ rfl
      have behind := sound.head_le
      have few := young.1
      exact uint64_succ (by omega)
  | loadValue index entry =>
      rw [here] at own
      obtain ⟨⟨address, found⟩, rfl⟩ := own
      simp only [ImplicitProducer.consume, here, sound.indexed.live_entry _ address found, Option.some.injEq] at moved
      subst moved
      simp only [visible, here]
      exact image_stays rfl rfl rfl (by rw [here]; rfl)
  | moveElement index entry block =>
      rw [here] at own
      obtain ⟨element, present, cell⟩ :=
        sound.cell (congrArg ConsumerPc.claimed here) (congrArg ConsumerPc.place here) own.1
      simp only [ImplicitProducer.consume, here, cell, Option.some.injEq] at moved
      subst moved
      simp only [visible, here]
      exact image_stays rfl rfl rfl (by rw [here]; rfl)
  | setEmpty index entry block element =>
      rw [here] at own
      simp only [ImplicitProducer.consume, here, Option.some.injEq] at moved
      subst moved
      simp only [visible, here]
      split
      · exact image_stays rfl rfl rfl (by rw [here]; rfl)
      · exact corresponds_bring rfl rfl rfl (congrArg ConsumerPc.place here) own.2.2
  | addToFreeList index block element =>
      rw [here] at own
      simp only [ImplicitProducer.consume, here, Option.some.injEq] at moved
      subst moved
      simp only [visible, here]
      have has : before.owned (.inr thread) = some block := congrArg ConsumerPc.block here
      rw [State.giveBack, if_pos (sound.owned.mem has)]
      exact corresponds_bring rfl rfl rfl (congrArg ConsumerPc.place here) own

omit [DecidableEq Address] [DecidableEq Thread] [DecidableEq Element] in
/-- What a thread has claimed stays the same when another element is offered. -/
theorem Sound.carried_append (sound : Sound noexceptCtor before) (offered : List Element) (thread : Thread) :
    (before.consumers thread).carried (before.enqueued ++ offered) =
      (before.consumers thread).carried before.enqueued := by
  obtain ⟨image, counted⟩ := sound.counted
  cases place : (before.consumers thread).place with
  | claimed index =>
      simp only [ConsumerPc.carried, place]
      exact List.getElem?_append_left (Nat.lt_of_lt_of_le (counted.claimed_lt place) counted.head_le)
  | away | start | sawTail | sawReturned | draw | decide | handBack | claim => simp only [ConsumerPc.carried, place]

theorem Sound.corresponds_produce (sound : Sound noexceptCtor before) {outcome : Outcome Address}
    (moved : ImplicitProducer.produce noexceptCtor before outcome = some after) :
    Fifo.system.run before.image (visible before (.produce outcome)).toList = some after.image := by
  obtain ⟨enqueued, _, headIndex, consumers⟩ := offers_of_produce moved
  have image : after.image = { before.image with items := before.enqueued ++ before.producer.offered } := by
    have carried : (fun thread => (before.consumers thread).carried (before.enqueued ++ before.producer.offered)) =
        fun thread => (before.consumers thread).carried before.enqueued :=
      funext (sound.carried_append before.producer.offered)
    rw [State.image, headIndex, enqueued, consumers, carried]
    rfl
  rw [image]
  cases here : before.producer with
  | storeTailIndex element =>
      simp only [visible, here]
      rfl
  | outside | loadHead | loadEntry | newBlockIndex | storeKey | storeTail | requisitionBlock | constructFirst
  | storeValue | construct | rewind | clearEntry | addToFreeList =>
      simp only [visible, here, ProducerPc.offered, List.append_nil]
      rfl

/-- A producer with the threads that dequeue from it is a queue, for up to
`2 ^ 62` elements and attempts to dequeue. -/
theorem refines (noexceptCtor : Bool) :
    (system noexceptCtor : System (State Thread Address Element) (Label Thread Address Element)).Refines
      Fifo.system visible State.image (Sound noexceptCtor) Young where
  start := by
    intro state initial
    obtain ⟨blocks, rfl⟩ := initial
    exact ⟨initial_sound noexceptCtor blocks, rfl⟩
  within moved young := young_of_step moved young
  keeps sound young moved := sound.step young moved
  corresponds := by
    intro before label after sound young moved
    cases label with
    | enqueue element =>
        simp only [system, step] at moved
        split at moved
        · cases moved
          rfl
        · cases moved
    | produce outcome => exact sound.corresponds_produce moved
    | dequeue thread =>
        simp only [system, step] at moved
        split at moved
        · rename_i here
          cases moved
          exact image_stays rfl rfl rfl (by rw [here]; rfl)
        · cases moved
    | consume thread =>
        have consumed : step noexceptCtor before (.consume thread) = some after := moved
        have earlier : Young before := young_of_step consumed young
        exact sound.corresponds_consume earlier moved

/-! ## What holds of every interleaving -/

/-- The elements come out in the order in which they went in: the claims get
the elements by their turns, and each call that claims one returns that one. -/
theorem elements_in_order {blocks : Address → Block Element} {labels : List (Label Thread Address Element)}
    (ran : (system noexceptCtor).run (.initial blocks) labels = some state) (young : Young state) :
    Fifo.system.run .initial ((system noexceptCtor).trace visible (.initial blocks) labels) = some state.image ∧
      ∀ thread, Fifo.brought thread ((system noexceptCtor).trace visible (.initial blocks) labels) ++
          ((state.consumers thread).carried state.enqueued).toList =
        Fifo.assignedTo thread ((system noexceptCtor).trace visible (.initial blocks) labels) := by
  have traced := (refines noexceptCtor).run_trace (initial_sound noexceptCtor blocks) ran young
  exact ⟨traced, (Fifo.history traced).brought⟩

/-- The steps of three calls of `enqueue` that fill part of a new block. -/
def threeElements : List (Label Bool Nat Nat) :=
  .enqueue 7 :: List.replicate 8 (.produce ⟨true, some 3, false⟩) ++
    .enqueue 8 :: List.replicate 2 (.produce ⟨true, some 3, false⟩) ++
    .enqueue 9 :: List.replicate 2 (.produce ⟨true, some 3, false⟩)

/-- Two threads claim the first two elements and return them in the other order,
and one of them claims the third. -/
def handOver : List (Label Bool Nat Nat) :=
  threeElements ++ .dequeue false :: List.replicate 6 (.consume false) ++
    .dequeue true :: List.replicate 12 (.consume true) ++ List.replicate 6 (.consume false) ++
    .dequeue false :: List.replicate 6 (.consume false)

theorem handOver_ran : ∃ state : State Bool Nat Nat,
    (system true).run (.initial fun _ => ⟨0, fun _ => none⟩) handOver = some state ∧ Young state := by
  have ran : ∃ state : State Bool Nat Nat, (system true).run (.initial fun _ => ⟨0, fun _ => none⟩) handOver =
      some state ∧ state.enqueued = [7, 8, 9] ∧ state.drawn = 3 := ⟨_, rfl, rfl, rfl⟩
  obtain ⟨state, ran, enqueued, drawn⟩ := ran
  refine ⟨state, ran, ?_⟩
  rw [Young, enqueued, drawn]
  decide

theorem handOver_in_order : ∃ state : State Bool Nat Nat,
    (system true).run (.initial fun _ => ⟨0, fun _ => none⟩) handOver = some state ∧
      Fifo.system.run .initial [.put 7, .put 8, .put 9, .claim false, .claim true, .bring true 8, .bring false 7,
        .claim false] = some state.image ∧
      [7] ++ ((state.consumers false).carried state.enqueued).toList = [7, 9] ∧
        [8] ++ ((state.consumers true).carried state.enqueued).toList = [8] := by
  obtain ⟨state, ran, young⟩ := handOver_ran
  obtain ⟨traced, brought⟩ := elements_in_order ran young
  exact ⟨state, ran, traced, brought false, brought true⟩

omit [DecidableEq Element] in
/-- No pointer is followed that is null or was never written, no cell is read
that is empty or constructed in that is not, and no block is given back twice. -/
theorem undefined_eq_false (reached : (system noexceptCtor).Reachable state) (young : Young state) :
    state.undefined = false := by
  classical
  exact ((refines noexceptCtor).invariant reached young).defined

theorem handOver_defined : ∃ state : State Bool Nat Nat,
    (system true).run (.initial fun _ => ⟨0, fun _ => none⟩) handOver = some state ∧ state.undefined = false := by
  obtain ⟨state, ran, young⟩ := handOver_ran
  exact ⟨state, ran, undefined_eq_false (.run (.start ⟨_, rfl⟩) ran) young⟩

end Ndnperf.Cxx.ImplicitProducer

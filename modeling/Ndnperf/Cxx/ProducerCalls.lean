import Ndnperf.Cxx.ProducerProgress

namespace Ndnperf.Cxx.ImplicitProducer

open Library Library.Word Library.Transition

variable {Thread Address Element : Type} [DecidableEq Thread] [DecidableEq Address]
  {before after state : State Thread Address Element}
  {thread : Thread} {noexceptCtor : Bool}

/-! ## What the callers see of a step -/

/-- The element that a thread has claimed in its present call, or that its last
one returned. -/
def ConsumerPc.inHand (enqueued : List Element) : ConsumerPc Address Element → Option Element
  | .outside result => result
  | pc => pc.carried enqueued

def State.inHand (state : State Thread Address Element) (thread : Thread) : Option Element :=
  (state.consumers thread).inHand state.enqueued

/-- A step of a thread that dequeues claims the oldest element, or changes
neither the claims nor what the thread has. -/
inductive Claims (before after : State Thread Address Element) (thread : Thread) : Prop where
  | keeps (elsewhere : before.consumers thread ≠ .addHead) (headIndex : after.headIndex = before.headIndex)
      (inHand : after.inHand thread = before.inHand thread)
  | claims {element : Element} (here : before.consumers thread = .addHead)
      (next : before.enqueued[before.headIndex]? = some element)
      (headIndex : after.headIndex = before.headIndex + 1) (nothing : before.inHand thread = none)
      (inHand : after.inHand thread = some element)

structure Consumes (before after : State Thread Address Element) (thread : Thread) : Prop where
  enqueued : after.enqueued = before.enqueued
  producer : after.producer = before.producer
  others : ∀ other, other ≠ thread → after.consumers other = before.consumers other
  claims : Claims before after thread

omit [DecidableEq Address] in
theorem State.consumerAt_inHand {pc : ConsumerPc Address Element} :
    (state.consumerAt thread pc).inHand thread = pc.inHand state.enqueued := by
  rw [State.inHand, State.consumerAt_self]
  rfl

omit [DecidableEq Address] in
theorem consumes_consumerAt {middle : State Thread Address Element} {pc : ConsumerPc Address Element}
    (elsewhere : before.consumers thread ≠ .addHead) (enqueued : middle.enqueued = before.enqueued)
    (producer : middle.producer = before.producer)
    (consumers : middle.consumers = before.consumers) (headIndex : middle.headIndex = before.headIndex)
    (inHand : (middle.consumerAt thread pc).inHand thread = before.inHand thread) :
    Consumes before (middle.consumerAt thread pc) thread := by
  refine ⟨enqueued, producer, fun other apart => ?_, .keeps elsewhere headIndex inHand⟩
  rw [State.consumerAt_other apart, consumers]

omit [DecidableEq Thread] [DecidableEq Address] in
theorem consumes_undefined (elsewhere : before.consumers thread ≠ .addHead) :
    Consumes before before.undefinedBehaviour thread :=
  ⟨rfl, rfl, fun _ _ => rfl, .keeps elsewhere rfl rfl⟩

variable [Fintype Thread]

theorem Sound.consumes (sound : Sound noexceptCtor before) (young : Young before)
    (moved : ImplicitProducer.consume before thread = some after) : Consumes before after thread := by
  have own := sound.knows thread
  cases here : before.consumers thread with
  | outside => simp only [ImplicitProducer.consume, here, reduceCtorEq] at moved
  | loadTail | loadOvercommit | addOptimistic | addOvercommit | loadBlockIndex | loadIndexTail | loadKey | clearEntry =>
      simp only [ImplicitProducer.consume, here, Option.some.injEq] at moved
      subst moved
      refine consumes_consumerAt (by simp [here]) rfl rfl rfl rfl ?_
      rw [State.consumerAt_inHand, State.inHand, here]
      rfl
  | loadOptimistic | compare =>
      simp only [ImplicitProducer.consume, here, Option.some.injEq] at moved
      subst moved
      refine consumes_consumerAt (by simp [here]) rfl rfl rfl rfl ?_
      rw [State.consumerAt_inHand, State.inHand, here]
      split <;> rfl
  | addHead =>
      simp only [ImplicitProducer.consume, here, Option.some.injEq] at moved
      subst moved
      obtain ⟨image, counted⟩ := sound.counted
      have offered : before.headIndex < before.enqueued.length := by
        rw [counted.headIndex, ← counted.tail]
        exact counted.sound.head_lt ((counted.places thread).trans (congrArg ConsumerPc.place here))
      have few := young.1
      refine ⟨rfl, rfl, fun other apart => State.consumerAt_other apart, .claims here
        (List.getElem?_eq_getElem offered) ?_ ?_ ?_⟩
      · exact uint64_succ (by omega)
      · rw [State.inHand, here]
        rfl
      · rw [State.consumerAt_inHand]
        exact List.getElem?_eq_getElem offered
  | loadValue | moveElement =>
      simp only [ImplicitProducer.consume, here] at moved
      split at moved
      · cases Option.some.inj moved
        refine consumes_consumerAt (by simp [here]) rfl rfl rfl rfl ?_
        rw [State.consumerAt_inHand, State.inHand, here]
        rfl
      all_goals exact Option.some.inj moved ▸ consumes_undefined (by simp [here])
  | setEmpty index entry block element =>
      rw [here] at own
      simp only [ImplicitProducer.consume, here, Option.some.injEq] at moved
      subst moved
      refine consumes_consumerAt (by simp [here]) rfl rfl rfl rfl ?_
      rw [State.consumerAt_inHand, State.inHand, here]
      split
      · rfl
      · exact own.2.2.symm
  | addToFreeList index block element =>
      rw [here] at own
      simp only [ImplicitProducer.consume, here, Option.some.injEq] at moved
      subst moved
      rw [State.giveBack]
      split
      all_goals
        refine consumes_consumerAt (by simp [here]) rfl rfl rfl rfl ?_
        rw [State.consumerAt_inHand, State.inHand, here]
        exact own.symm

omit [DecidableEq Thread] [DecidableEq Address] in
theorem Sound.inHand_append (sound : Sound noexceptCtor before) (offered : List Element) (thread : Thread) :
    (before.consumers thread).inHand (before.enqueued ++ offered) = before.inHand thread := by
  have same := sound.carried_append offered thread
  rw [State.inHand]
  cases here : before.consumers thread with
  | outside result => rfl
  | loadTail | loadOvercommit | loadOptimistic | addOptimistic | compare | addOvercommit | addHead
  | loadBlockIndex | loadIndexTail | loadKey | loadValue | moveElement | setEmpty | clearEntry | addToFreeList =>
      rw [here] at same
      exact same

/-! ## A call ends -/

/-- The tickets that a call may still draw. -/
def ConsumerPc.draws : ConsumerPc Address Element → Nat
  | .loadTail | .loadOvercommit _ | .loadOptimistic _ _ | .addOptimistic _ => 1
  | _ => 0

/-- A step of a call brings it nearer to its end, and at most one draws a ticket. -/
structure Ends (before after : State Thread Address Element) (thread : Thread) : Prop where
  drawn : after.drawn + (after.consumers thread).draws ≤ before.drawn + (before.consumers thread).draws
  closer : (after.consumers thread).rank < (before.consumers thread).rank

omit [DecidableEq Address] [Fintype Thread] in
theorem ends_consumerAt {old pc : ConsumerPc Address Element} {middle : State Thread Address Element}
    (here : before.consumers thread = old) (drawn : middle.drawn + pc.draws ≤ before.drawn + old.draws)
    (closer : pc.rank < old.rank) : Ends before (middle.consumerAt thread pc) thread := by
  constructor
  · rw [State.consumerAt_self, here]
    exact drawn
  · rw [State.consumerAt_self, here]
    exact closer

omit [DecidableEq Thread] [DecidableEq Address] [Fintype Thread] in
theorem Brings.draws {index : Nat} (brings : Brings state thread index) : (state.consumers thread).draws = 0 := by
  rcases brings with place | outside
  · cases here : state.consumers thread <;> rw [here] at place <;> first | rfl | cases place
  · rw [outside]
    rfl

theorem Sound.ends (sound : Sound noexceptCtor before) (moved : ImplicitProducer.consume before thread = some after) :
    Ends before after thread := by
  by_cases claimed : ∃ index, (before.consumers thread).place = .claimed index
  · obtain ⟨index, place⟩ := claimed
    have follows := sound.follows place moved
    refine ⟨?_, follows.closer⟩
    rw [follows.drawn, follows.brings.draws]
    exact Nat.le_add_right _ _
  · cases here : before.consumers thread with
    | outside => simp only [ImplicitProducer.consume, here, reduceCtorEq] at moved
    | loadTail | loadOvercommit | addOptimistic | addOvercommit | addHead =>
        simp only [ImplicitProducer.consume, here, Option.some.injEq] at moved
        exact moved ▸ ends_consumerAt here (Nat.le_refl _) (by simp [ConsumerPc.rank])
    | loadOptimistic | compare =>
        simp only [ImplicitProducer.consume, here, Option.some.injEq] at moved
        subst moved
        refine ends_consumerAt here ?_ ?_
        · split
          · exact Nat.le_refl _
          · exact Nat.le_add_right _ _
        · split
          · exact Nat.lt_succ_self _
          · simp [ConsumerPc.rank]
    | loadBlockIndex | loadIndexTail | loadKey | loadValue | moveElement | setEmpty | clearEntry | addToFreeList =>
        rw [here] at claimed
        exact absurd ⟨_, rfl⟩ claimed

omit [DecidableEq Thread] [DecidableEq Address] [Fintype Thread] in
theorem ConsumerPc.outside_of_away {pc : ConsumerPc Address Element} (away : pc.place = .away) : ∃ result, pc =
    .outside result := by
  cases pc with
  | outside result => exact ⟨result, rfl⟩
  | loadTail | loadOvercommit | loadOptimistic | addOptimistic | compare | addOvercommit | addHead
  | loadBlockIndex | loadIndexTail | loadKey | loadValue | moveElement | setEmpty | clearEntry | addToFreeList =>
      cases away

omit [DecidableEq Thread] [DecidableEq Address] [Fintype Thread] in
theorem ConsumerPc.draws_le (pc : ConsumerPc Address Element) : pc.draws ≤ 1 := by
  cases pc <;> simp [ConsumerPc.draws]

/-- What holds while the thread runs alone: it draws at most one more ticket. -/
structure Alone (noexceptCtor : Bool) (thread : Thread) (start state : State Thread Address Element) : Prop where
  sound : Sound noexceptCtor state
  enqueued : state.enqueued = start.enqueued
  drawn : state.drawn + (state.consumers thread).draws ≤ start.drawn + 1

theorem Alone.closer {start : State Thread Address Element} (few : start.enqueued.length < 2 ^ 62)
    (fewer : start.drawn + 1 < 2 ^ 62) (alone : Alone noexceptCtor thread start before)
    (inside : (before.consumers thread).place ≠ .away) :
    (system noexceptCtor).CanReach (Own thread) (fun after => Alone noexceptCtor thread start after ∧
      (after.consumers thread).rank < (before.consumers thread).rank) before := by
  obtain ⟨after, moved⟩ := consume_exists inside
  have ends := alone.sound.ends moved
  have drawn := Nat.le_trans ends.drawn alone.drawn
  have enqueued : after.enqueued = start.enqueued := (records_of_consume moved).1.trans alone.enqueued
  have young : Young after := ⟨enqueued ▸ few, Nat.lt_of_le_of_lt (Nat.le_of_add_right_le drawn) fewer⟩
  exact System.canReach_of_step rfl moved ⟨⟨alone.sound.consume young moved, enqueued, drawn⟩, ends.closer⟩

/-- A thread that runs alone gets to the end of its call. -/
theorem Sound.call_ends (sound : Sound noexceptCtor state) (few : state.enqueued.length < 2 ^ 62)
    (fewer : state.drawn + 1 < 2 ^ 62) :
    (system noexceptCtor).CanReach (Own thread)
      (fun after => (∃ result, after.consumers thread = .outside result) ∧ after.enqueued = state.enqueued ∧
        after.drawn ≤ state.drawn + 1) state := by
  refine System.canReach_of_measure (fun after => (after.consumers thread).rank)
    (fun {before} (alone : Alone noexceptCtor thread state before) unfinished => ?_)
    ⟨sound, rfl, Nat.add_le_add_left (ConsumerPc.draws_le _) _⟩
  refine alone.closer few fewer fun away => unfinished ?_
  exact ⟨ConsumerPc.outside_of_away away, alone.enqueued, Nat.le_of_add_right_le alone.drawn⟩

/-! ## What a call of `enqueue` returns -/

def ProducerPc.succeeded : ProducerPc Address Element → Nat
  | .outside true => 1
  | _ => 0

omit [DecidableEq Thread] [Fintype Thread] in
theorem succeeded_constructIn {block : Address} {element : Element} {next : ProducerPc Address Element}
    (unfinished : state.producer.succeeded = 0) (further : next.succeeded = 0) :
    (state.constructIn block element next).producer.succeeded = 0 := by
  rw [State.constructIn]
  split
  · exact further
  · exact unfinished

omit [DecidableEq Thread] [Fintype Thread] in
/-- A call that has stored the tail returns `true`, and only such a call. -/
theorem succeeded_of_produce {outcome : Outcome Address} (moved : produce noexceptCtor before outcome = some after) :
    after.producer.succeeded = before.producer.offered.length := by
  cases here : before.producer with
  | outside => simp only [produce, here, reduceCtorEq] at moved
  | storeKey | storeTail | rewind | storeTailIndex =>
      simp only [produce, here, Option.some.injEq] at moved
      exact moved ▸ rfl
  | loadHead | storeValue | clearEntry =>
      simp only [produce, here, Option.some.injEq] at moved
      subst moved
      simp only [State.producerAt]
      split <;> rfl
  | loadEntry =>
      simp only [produce, here] at moved
      split at moved
      · exact Option.some.inj moved ▸ rfl
      · split at moved
        · exact Option.some.inj moved ▸ rfl
        · exact Option.some.inj moved ▸ rfl
        · exact Option.some.inj moved ▸ congrArg ProducerPc.succeeded here
  | newBlockIndex =>
      simp only [produce, here] at moved
      split at moved <;> exact Option.some.inj moved ▸ rfl
  | requisitionBlock =>
      simp only [produce, here] at moved
      split at moved
      · exact Option.some.inj moved ▸ rfl
      · split at moved
        · cases moved
        · cases Option.some.inj moved
          simp only [State.producerAt]
          split <;> rfl
  | constructFirst =>
      simp only [produce, here] at moved
      split at moved
      · exact Option.some.inj moved ▸ rfl
      · exact Option.some.inj moved ▸ succeeded_constructIn (by rw [here]; rfl) rfl
  | construct =>
      simp only [produce, here] at moved
      split at moved
      · exact Option.some.inj moved ▸ rfl
      · split at moved
        · exact Option.some.inj moved ▸ congrArg ProducerPc.succeeded here
        · exact Option.some.inj moved ▸ succeeded_constructIn (by rw [here]; rfl) rfl
  | addToFreeList =>
      simp only [produce, here, Option.some.injEq] at moved
      exact moved ▸ rfl

end Ndnperf.Cxx.ImplicitProducer

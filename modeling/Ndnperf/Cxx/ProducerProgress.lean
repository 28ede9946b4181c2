import Ndnperf.Cxx.ProducerQueue

namespace Ndnperf.Cxx.ImplicitProducer

open Library Library.Word Library.Transition Library.Threads Library.Ownership

variable {Thread Address Element : Type} [DecidableEq Thread] [DecidableEq Address] [Fintype Thread]
  {before after state : State Thread Address Element} {thread : Thread} {noexceptCtor : Bool} {index : Nat}

/-! ## A thread that has claimed an element returns it -/

/-- How many steps a call takes at most. -/
def ConsumerPc.rank : ConsumerPc Address Element → Nat
  | .outside _ => 0
  | .loadTail => 14
  | .loadOvercommit _ => 13
  | .loadOptimistic _ _ => 12
  | .addOptimistic _ => 11
  | .compare _ _ => 10
  | .addOvercommit | .addHead => 9
  | .loadBlockIndex _ => 8
  | .loadIndexTail _ _ => 7
  | .loadKey _ _ _ => 6
  | .loadValue _ _ => 5
  | .moveElement _ _ _ => 4
  | .setEmpty _ _ _ _ => 3
  | .clearEntry _ _ _ _ => 2
  | .addToFreeList _ _ _ => 1

/-- What the thread has claimed is still to be returned, or has been. -/
def Brings (state : State Thread Address Element) (thread : Thread) (index : Nat) : Prop :=
  (state.consumers thread).place = .claimed index ∨ state.consumers thread = .outside state.enqueued[index]?

/-- The thread comes closer to the end of its call. -/
structure Follows (before after : State Thread Address Element) (thread : Thread) (index : Nat) : Prop where
  enqueued : after.enqueued = before.enqueued
  drawn : after.drawn = before.drawn
  brings : Brings after thread index
  closer : (after.consumers thread).rank < (before.consumers thread).rank

omit [DecidableEq Address] [Fintype Thread] in
theorem follows_consumerAt {old pc : ConsumerPc Address Element} {middle : State Thread Address Element}
    (here : before.consumers thread = old) (enqueued : middle.enqueued = before.enqueued)
    (drawn : middle.drawn = before.drawn) (place : pc.place = .claimed index ∨ pc = .outside before.enqueued[index]?)
    (closer : pc.rank < old.rank) :
    Follows before (middle.consumerAt thread pc) thread index := by
  refine ⟨enqueued, drawn, ?_, ?_⟩
  · rw [Brings, State.consumerAt_self]
    refine place.imp_right fun outside => outside.trans ?_
    exact congrArg (fun items : List Element => ConsumerPc.outside items[index]?) enqueued.symm
  · rw [State.consumerAt_self, here]
    exact closer

theorem Sound.follows (sound : Sound noexceptCtor before) (place : (before.consumers thread).place = .claimed index)
    (moved : ImplicitProducer.consume before thread = some after) : Follows before after thread index := by
  have own := sound.knows thread
  cases here : before.consumers thread with
  | outside | loadTail | loadOvercommit | loadOptimistic | addOptimistic | compare | addOvercommit | addHead =>
      rw [here] at place
      cases place
  | loadBlockIndex | loadIndexTail | loadKey | clearEntry =>
      rw [here] at place
      cases place
      simp only [ImplicitProducer.consume, here, Option.some.injEq] at moved
      exact moved ▸ follows_consumerAt here rfl rfl (.inl rfl) (Nat.lt_succ_self _)
  | loadValue second entry =>
      rw [here] at place own
      cases place
      obtain ⟨⟨address, found⟩, rfl⟩ := own
      simp only [ImplicitProducer.consume, here, sound.indexed.live_entry _ address found, Option.some.injEq] at moved
      exact moved ▸ follows_consumerAt here rfl rfl (.inl rfl) (Nat.lt_succ_self _)
  | moveElement second entry block =>
      rw [here] at place own
      cases place
      obtain ⟨element, _, cell⟩ := sound.cell (congrArg ConsumerPc.claimed here) (congrArg ConsumerPc.place here) own.1
      simp only [ImplicitProducer.consume, here, cell, Option.some.injEq] at moved
      exact moved ▸ follows_consumerAt here rfl rfl (.inl rfl) (Nat.lt_succ_self _)
  | setEmpty second entry block element =>
      rw [here] at place own
      cases place
      simp only [ImplicitProducer.consume, here, Option.some.injEq] at moved
      subst moved
      refine follows_consumerAt here rfl rfl ?_ ?_
      · split
        · exact .inl rfl
        · exact .inr (congrArg ConsumerPc.outside own.2.2.symm)
      · split
        · exact Nat.lt_succ_self _
        · exact Nat.succ_pos _
  | addToFreeList second block element =>
      rw [here] at place own
      cases place
      simp only [ImplicitProducer.consume, here, Option.some.injEq] at moved
      subst moved
      have has : before.owned (.inr thread) = some block := congrArg ConsumerPc.block here
      rw [State.giveBack, if_pos (sound.owned.mem has)]
      exact follows_consumerAt here rfl rfl (.inr (congrArg ConsumerPc.outside own.symm)) Nat.one_pos

omit [Fintype Thread] in
/-- A thread in a call can always take its next step. -/
theorem consume_exists (inside : (state.consumers thread).place ≠ .away) :
    ∃ after, consume state thread = some after := by
  cases here : state.consumers thread with
  | outside =>
      rw [here] at inside
      exact absurd rfl inside
  | loadValue | moveElement =>
      simp only [consume, here]
      split <;> exact ⟨_, rfl⟩
  | loadTail | loadOvercommit | loadOptimistic | addOptimistic | compare | addOvercommit | addHead | loadBlockIndex
  | loadIndexTail | loadKey | setEmpty | clearEntry | addToFreeList =>
      simp only [consume, here]
      exact ⟨_, rfl⟩

/-- The steps of one thread. -/
def Own (thread : Thread) (label : Label Thread Address Element) : Prop := label = .consume thread

/-- What holds while the thread runs alone to the end of a call that has claimed. -/
structure Returning (noexceptCtor : Bool) (thread : Thread) (index : Nat) (items : List Element)
    (state : State Thread Address Element) : Prop where
  sound : Sound noexceptCtor state
  young : Young state
  enqueued : state.enqueued = items
  brings : Brings state thread index

theorem Returning.closer {items : List Element} (returning : Returning noexceptCtor thread index items before)
    (unfinished : before.consumers thread ≠ .outside items[index]?) :
    (system noexceptCtor).CanReach (Own thread) (fun after => Returning noexceptCtor thread index items after ∧
      (after.consumers thread).rank < (before.consumers thread).rank) before := by
  obtain ⟨sound, young, enqueued, place | outside⟩ := returning
  · have inside : (before.consumers thread).place ≠ .away := by simp [place]
    obtain ⟨after, moved⟩ := consume_exists inside
    have follows := sound.follows place moved
    have next : Young after := by
      rw [Young, follows.enqueued, follows.drawn]
      exact young
    exact System.canReach_of_step rfl moved
      ⟨⟨sound.consume next moved, next, follows.enqueued.trans enqueued, follows.brings⟩, follows.closer⟩
  · exact absurd (enqueued ▸ outside) unfinished

theorem Sound.returns (sound : Sound noexceptCtor state) (young : Young state) (brings : Brings state thread index) :
    (system noexceptCtor).CanReach (Own thread)
      (fun after => after.consumers thread = .outside state.enqueued[index]?) state :=
  System.canReach_of_measure (fun after => (after.consumers thread).rank)
    (fun returning unfinished => Returning.closer returning unfinished) ⟨sound, young, rfl, brings⟩

/-! ## A call that nobody disturbs -/

/-- Between drawing a ticket and its use. -/
def ConsumerPc.Draws : ConsumerPc Address Element → Prop
  | .compare _ _ | .addOvercommit | .addHead => True
  | _ => False

omit [DecidableEq Address] in
theorem ConsumerPc.draws_iff {pc : ConsumerPc Address Element} : pc.Draws ↔ pc.place.Holds := by
  cases pc with
  | compare overcommit myDequeueCount => exact iff_of_true trivial (.inl ⟨overcommit, myDequeueCount, rfl⟩)
  | addOvercommit => exact iff_of_true trivial (.inr (.inl rfl))
  | addHead => exact iff_of_true trivial (.inr (.inr rfl))
  | outside | loadTail | loadOvercommit | loadOptimistic | addOptimistic | loadBlockIndex | loadIndexTail
  | loadKey | loadValue | moveElement | setEmpty | clearEntry | addToFreeList =>
      refine iff_of_false id fun holds => ?_
      rcases holds with ⟨_, _, same⟩ | same | same <;> cases same

instance : DecidablePred (ConsumerPc.Draws : ConsumerPc Address Element → Prop) :=
  fun _ => decidable_of_iff' _ ConsumerPc.draws_iff

/-- The tickets that are neither used nor handed back. -/
def State.drawing (state : State Thread Address Element) : Nat := threadsAt ConsumerPc.Draws state.consumers

omit [DecidableEq Thread] [DecidableEq Address] in
theorem Sound.tickets (sound : Sound noexceptCtor state) :
    state.dequeueOptimisticCount = state.headIndex + state.dequeueOvercommit + state.drawing := by
  obtain ⟨image, counted⟩ := sound.counted
  have drawn := counted.sound.drawn_eq
  have same : threadsAt Tickets.Place.Holds image.places = state.drawing := by
    refine congrArg Finset.card (Finset.filter_congr fun thread _ => ?_)
    rw [counted.places, ConsumerPc.draws_iff]
  rw [counted.dequeueOptimisticCount, counted.headIndex, counted.dequeueOvercommit, ← counted.drawn, drawn, same]

omit [DecidableEq Address] [Fintype Thread] in
theorem State.consumerAt_consumerAt (first second : ConsumerPc Address Element) :
    (state.consumerAt thread first).consumerAt thread second = state.consumerAt thread second := by
  simp only [State.consumerAt, Function.update_idem]

omit [Fintype Thread] in
theorem consume_addOptimistic {overcommit : Nat} (here : before.consumers thread = .addOptimistic overcommit) :
    consume before thread = some ({ before with
      dequeueOptimisticCount := uint64 (before.dequeueOptimisticCount + 1 : Nat)
      drawn := before.drawn + 1 }.consumerAt thread (.compare overcommit before.dequeueOptimisticCount)) := by
  simp only [consume, here]

omit [Fintype Thread] in
theorem consume_addHead (here : before.consumers thread = .addHead) :
    consume before thread = some ({ before with headIndex := uint64 (before.headIndex + 1 : Nat) }.consumerAt thread
      (.loadBlockIndex before.headIndex)) := by
  simp only [consume, here]

/-- More elements are left than tickets are out for them. -/
def State.Offers (state : State Thread Address Element) : Prop :=
  state.headIndex + state.drawing < state.enqueued.length

instance (state : State Thread Address Element) : Decidable state.Offers := inferInstanceAs (Decidable (_ < _))

omit [DecidableEq Thread] [DecidableEq Address] in
theorem Sound.enough (sound : Sound noexceptCtor state) (young : Young state) :
    circularLessThan (uint64 ((state.dequeueOptimisticCount : Int) - state.dequeueOvercommit)) state.tailIndex ↔
      state.Offers := by
  have few := young.1
  have fewer := young.2
  obtain ⟨image, counted⟩ := sound.counted
  have drawn := counted.dequeueOptimisticCount
  have tickets := sound.tickets
  have word : uint64 ((state.dequeueOptimisticCount : Int) - state.dequeueOvercommit) =
      state.headIndex + state.drawing := by
    rw [uint64_sub (by omega) (by omega)]
    omega
  rw [word, sound.tailIndex, circularLessThan_iff (by omega) (by omega), State.Offers]

/-- What a thread that nobody disturbs reads, and what it does then. -/
theorem Sound.reads (sound : Sound noexceptCtor state) (young : Young state) (thread : Thread) :
    (system noexceptCtor).run (state.consumerAt thread .loadTail) (List.replicate 3 (.consume thread)) =
      some (state.consumerAt thread (if state.Offers then .addOptimistic state.dequeueOvercommit
        else .outside none)) := by
  have tailRead : ImplicitProducer.consume (state.consumerAt thread .loadTail) thread =
      some (state.consumerAt thread (.loadOvercommit state.tailIndex)) := by
    simp only [ImplicitProducer.consume, State.consumerAt_self, State.consumerAt_consumerAt]
    rfl
  have overcommitRead : ImplicitProducer.consume (state.consumerAt thread (.loadOvercommit state.tailIndex)) thread =
      some (state.consumerAt thread (.loadOptimistic state.tailIndex state.dequeueOvercommit)) := by
    simp only [ImplicitProducer.consume, State.consumerAt_self, State.consumerAt_consumerAt]
    rfl
  have optimisticRead : ImplicitProducer.consume
      (state.consumerAt thread (.loadOptimistic state.tailIndex state.dequeueOvercommit)) thread =
        some (state.consumerAt thread (if state.Offers then .addOptimistic state.dequeueOvercommit
          else .outside none)) := by
    simp only [ImplicitProducer.consume, State.consumerAt_self, State.consumerAt_consumerAt, ← sound.enough young]
    rfl
  exact System.run_cons.mpr ⟨_, tailRead, System.run_cons.mpr
    ⟨_, overcommitRead, (System.run_singleton _ _).trans optimisticRead⟩⟩

/-- A call that nobody disturbs returns the oldest element that is not claimed,
if there are more than the tickets that are out. -/
theorem Sound.finds (sound : Sound noexceptCtor state) (few : state.enqueued.length < 2 ^ 62)
    (fewer : state.drawn + 1 < 2 ^ 62) (offers : state.Offers)
    (outside : ∃ result, state.consumers thread = .outside result) :
    (system noexceptCtor).CanReach (Own thread)
      (fun after => after.consumers thread = .outside state.enqueued[state.headIndex]?)
        (state.consumerAt thread .loadTail) := by
  classical
  obtain ⟨result, here⟩ := outside
  have young : Young state := ⟨few, Nat.lt_of_succ_lt fewer⟩
  have read := sound.reads young thread
  rw [if_pos offers] at read
  have begun := (refines noexceptCtor).invariant_run (sound.dequeue here) read young
  have enough := (sound.enough young).mpr offers
  obtain ⟨drew, draws, compares, tail', head', enqueued', drawn'⟩ : ∃ drew,
      ImplicitProducer.consume (state.consumerAt thread (.addOptimistic state.dequeueOvercommit)) thread = some drew ∧
        drew.consumers thread = .compare state.dequeueOvercommit state.dequeueOptimisticCount ∧
          drew.tailIndex = state.tailIndex ∧ drew.headIndex = state.headIndex ∧ drew.enqueued = state.enqueued ∧
            drew.drawn = state.drawn + 1 :=
    ⟨_, consume_addOptimistic State.consumerAt_self, State.consumerAt_self, rfl, rfl, rfl, rfl⟩
  have drawing := begun.consume ⟨enqueued' ▸ few, drawn' ▸ fewer⟩ draws
  obtain ⟨won, decides, adds, head'', enqueued'', drawn''⟩ : ∃ won,
      ImplicitProducer.consume drew thread = some won ∧ won.consumers thread = .addHead ∧
        won.headIndex = state.headIndex ∧ won.enqueued = state.enqueued ∧ won.drawn = state.drawn + 1 := by
    refine ⟨drew.consumerAt thread .addHead, ?_, State.consumerAt_self, head', enqueued', drawn'⟩
    rw [ImplicitProducer.consume, compares]
    simp only [tail', if_pos enough]
  have winning := drawing.consume ⟨enqueued'' ▸ few, drawn'' ▸ fewer⟩ decides
  obtain ⟨claimed, claims, place, enqueued, drawn⟩ : ∃ claimed,
      ImplicitProducer.consume won thread = some claimed ∧ (claimed.consumers thread).place = .claimed state.headIndex ∧
        claimed.enqueued = state.enqueued ∧ claimed.drawn = state.drawn + 1 := by
    refine ⟨_, consume_addHead adds, ?_, enqueued'', drawn''⟩
    rw [State.consumerAt_self, head'']
    rfl
  have last : Young claimed := ⟨enqueued ▸ few, drawn ▸ fewer⟩
  have returns := (winning.consume last claims).returns last (.inl place)
  rw [enqueued] at returns
  refine System.canReach_run (fun label member => List.eq_of_mem_replicate member) read ?_
  exact System.canReach_cons rfl draws (System.canReach_cons rfl decides (System.canReach_cons rfl claims returns))

/-- A call of `dequeue` that nobody disturbs, wherever the other threads stand,
returns the oldest element that is not claimed, as long as more are left than
tickets are out, and nothing otherwise. -/
theorem dequeue_alone (reached : (system noexceptCtor).Reachable state) (few : state.enqueued.length < 2 ^ 62)
    (fewer : state.drawn + 1 < 2 ^ 62) (outside : ∃ result, state.consumers thread = .outside result) :
    ∃ called, (system noexceptCtor).step state (.dequeue thread) = some called ∧
      (system noexceptCtor).CanReach (Own thread)
        (fun after => after.consumers thread =
          .outside (if state.Offers then state.enqueued[state.headIndex]? else none))
        called := by
  classical
  have young : Young state := ⟨few, Nat.lt_of_succ_lt fewer⟩
  have sound := (refines noexceptCtor).invariant reached young
  have called : (system noexceptCtor).step state (.dequeue thread) = some (state.consumerAt thread .loadTail) := by
    obtain ⟨result, here⟩ := outside
    simp only [system, step, here]
  refine ⟨_, called, ?_⟩
  by_cases offers : state.Offers
  · simp only [if_pos offers]
    exact sound.finds few fewer offers outside
  · have read := sound.reads young thread
    rw [if_neg offers] at read
    simp only [if_neg offers]
    exact ⟨_, _, fun label member => List.eq_of_mem_replicate member, read, State.consumerAt_self⟩

theorem dequeue_alone_sample : ∃ state called : State Unit Nat Nat,
    (system true).run (.initial fun _ => ⟨0, fun _ => none⟩)
      (.enqueue 7 :: List.replicate 8 (.produce ⟨true, some 3, false⟩)) = some state ∧
        (system true).step state (.dequeue ()) = some called ∧
          (system true).CanReach (Own ()) (fun after => after.consumers () = .outside (some 7)) called := by
  have ran : ∃ state : State Unit Nat Nat, (system true).run (.initial fun _ => ⟨0, fun _ => none⟩)
      (.enqueue 7 :: List.replicate 8 (.produce ⟨true, some 3, false⟩)) = some state ∧ state.enqueued = [7] ∧
        state.drawn = 0 ∧ state.headIndex = 0 ∧ state.consumers = fun _ => .outside none :=
    ⟨_, rfl, rfl, rfl, rfl, rfl⟩
  obtain ⟨state, ran, enqueued, drawn, head, consumers⟩ := ran
  obtain ⟨called, calls, returns⟩ := @dequeue_alone _ _ _ _ _ _ state () _ (.run (.start ⟨_, rfl⟩) ran)
    (by rw [enqueued]; decide) (by rw [drawn]; decide) ⟨none, by rw [consumers]⟩
  have nobody : state.drawing = 0 := by
    rw [State.drawing, consumers]
    exact threadsAt_eq_zero _ fun _ => id
  have offers : state.Offers := by
    rw [State.Offers, head, nobody, enqueued]
    decide
  rw [if_pos offers, enqueued, head] at returns
  exact ⟨state, called, ran, calls, returns⟩

end Ndnperf.Cxx.ImplicitProducer

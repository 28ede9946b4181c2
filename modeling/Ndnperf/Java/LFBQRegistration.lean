import Ndnperf.Java.LFBQ

namespace Ndnperf.Java.LFBQ

open Library.Transition

variable {Element Producer Consumer : Type} [DecidableEq Consumer] {slots : Nat} {consumer : Consumer} {pc : ConsumerPc}
  {state before after : State Element Producer Consumer} {producer : Producer}

/-! ## The steps of a consumer -/

inductive Takes (slots : Nat) (state : State Element Producer Consumer) (consumer : Consumer) :
    State Element Producer Consumer → Prop where
  | call (here : state.consumers consumer = .outside) : Takes slots state consumer (state.consumerAt consumer .poll)
  | value {element : Element} {rest : List Element} (here : state.consumers consumer = .poll)
      (found : state.deque = element :: rest) :
      Takes slots state consumer ({ state with deque := rest }.consumerAt consumer .outside)
  | empty (here : state.consumers consumer = .poll) (vacant : state.deque = []) :
      Takes slots state consumer (state.consumerAt consumer (.get 0))
  | free {index : Nat} (here : state.consumers consumer = .get index) (inside : index < slots)
      (vacant : state.consumerWorker index = none) :
      Takes slots state consumer (state.consumerAt consumer (.compareAndSet index))
  | occupied {index : Nat} (here : state.consumers consumer = .get index) (inside : index < slots) :
      Takes slots state consumer (state.consumerAt consumer (.get (index + 1)))
  | full {index : Nat} (here : state.consumers consumer = .get index) (past : ¬index < slots) :
      Takes slots state consumer (state.consumerAt consumer .parkNanos)
  | registered {index : Nat} (here : state.consumers consumer = .compareAndSet index)
      (vacant : state.consumerWorker index = none) :
      Takes slots state consumer ((state.setSlot index (some consumer)).consumerAt consumer .park)
  | lost {index : Nat} (here : state.consumers consumer = .compareAndSet index) :
      Takes slots state consumer (state.consumerAt consumer (.get (index + 1)))
  | blocked (here : state.consumers consumer = .park) (unpermitted : state.permit consumer = false) :
      Takes slots state consumer (state.consumerAt consumer .parked)
  | woken (here : state.consumers consumer = .park ∨ state.consumers consumer = .parked ∨
        state.consumers consumer = .parkNanos) :
      Takes slots state consumer ((state.setPermit consumer false).consumerAt consumer .poll)

theorem takes_of_takeStep (moved : takeStep slots state consumer = some after) : Takes slots state consumer after := by
  unfold takeStep at moved
  split at moved <;> rename_i here
  · exact Option.some.inj moved ▸ .call here
  · split at moved <;> rename_i found
    · exact Option.some.inj moved ▸ .value here found
    · exact Option.some.inj moved ▸ .empty here found
  · split at moved <;> rename_i inside
    · split at moved <;> rename_i slot
      · exact Option.some.inj moved ▸ .free here inside slot
      · exact Option.some.inj moved ▸ .occupied here inside
    · exact Option.some.inj moved ▸ .full here inside
  · split at moved <;> rename_i slot
    · exact Option.some.inj moved ▸ .registered here slot
    · exact Option.some.inj moved ▸ .lost here
  · split at moved <;> rename_i permit
    · exact Option.some.inj moved ▸ .woken (.inl here)
    · exact Option.some.inj moved ▸ .blocked here (Bool.eq_false_iff.mpr permit)
  · simp only [Option.ite_none_right_eq_some, Option.some.injEq] at moved
    exact moved.2 ▸ .woken (.inr (.inl here))
  · exact Option.some.inj moved ▸ .woken (.inr (.inr here))

/-! ## Who is bound to be unparked -/

/-- The producer is between reading the consumer in a slot and unparking it. -/
def ProducerPc.Notifies (consumer : Consumer) : ProducerPc Consumer → Prop
  | .outside => False
  | .get _ => False
  | .set _ thread => thread = consumer
  | .unpark _ thread => thread = consumer

instance (consumer : Consumer) : (pc : ProducerPc Consumer) → Decidable (pc.Notifies consumer)
  | .outside => inferInstanceAs (Decidable False)
  | .get _ => inferInstanceAs (Decidable False)
  | .set _ _ => inferInstanceAs (Decidable (_ = _))
  | .unpark _ _ => inferInstanceAs (Decidable (_ = _))

/-- The consumer is past its `compareAndSet` and waits for an `unpark`. -/
def State.Waits (state : State Element Producer Consumer) (consumer : Consumer) : Prop :=
  state.consumers consumer = .park ∨ state.consumers consumer = .parked

instance (consumer : Consumer) : Decidable (state.Waits consumer) := inferInstanceAs (Decidable (_ ∨ _))

def State.Stored (slots : Nat) (state : State Element Producer Consumer) (consumer : Consumer) : Prop :=
  ∃ index, index < slots ∧ state.consumerWorker index = some consumer

/-- A producer has read the consumer from a slot and will unpark it. -/
def State.Announced (state : State Element Producer Consumer) (consumer : Consumer) : Prop :=
  ∃ producer, (state.producers producer).Notifies consumer

/-- Every waiting consumer without a permit is in a slot or has been read from one. -/
structure Kept (slots : Nat) (state : State Element Producer Consumer) : Prop where
  inside : ∀ consumer index, state.consumers consumer = .compareAndSet index → index < slots
  noticed : ∀ consumer, state.Waits consumer → state.permit consumer = false →
    state.Stored slots consumer ∨ state.Announced consumer

omit [DecidableEq Consumer] in
theorem kept_initial : Kept slots (State.initial : State Element Producer Consumer) :=
  ⟨fun _ _ => nofun, fun _ => by rintro (_ | _) <;> contradiction⟩

omit [DecidableEq Consumer] in
/-- The deque is of no importance. -/
theorem Kept.requeue (kept : Kept slots state) (deque : List Element) : Kept slots { state with deque } :=
  ⟨kept.inside, kept.noticed⟩

theorem Kept.move (kept : Kept slots state) (inside : ∀ index, pc = .compareAndSet index → index < slots)
    (noticed : pc = .park ∨ pc = .parked → state.permit consumer = false →
      state.Stored slots consumer ∨ state.Announced consumer) :
    Kept slots (state.consumerAt consumer pc) := by
  refine ⟨fun other index here => ?_, fun other waits => ?_⟩
  · by_cases same : other = consumer
    · subst same
      simp only [State.consumerAt, Function.update_self] at here
      exact inside index here
    · simp only [State.consumerAt, Function.update_of_ne same] at here
      exact kept.inside other index here
  · by_cases same : other = consumer
    · subst same
      simp only [State.Waits, State.consumerAt, Function.update_self] at waits
      exact noticed waits
    · simp only [State.Waits, State.consumerAt, Function.update_of_ne same] at waits
      exact kept.noticed other waits

omit [DecidableEq Consumer] in
theorem State.Stored.fill {index : Nat} {other : Consumer} (stored : state.Stored slots other)
    (vacant : state.consumerWorker index = none) : (state.setSlot index (some consumer)).Stored slots other := by
  obtain ⟨slot, inside, found⟩ := stored
  have different : slot ≠ index := by
    intro same
    subst same
    simp [vacant] at found
  exact ⟨slot, inside, by simpa only [State.setSlot, Function.update_of_ne different] using found⟩

theorem kept_takes (kept : Kept slots before) (taken : Takes slots before consumer after) : Kept slots after := by
  cases taken with
  | call | empty | full | occupied | lost => exact kept.move (by simp) (by simp)
  | value => exact (kept.requeue _).move (by simp) (by simp)
  | free here inside vacant => exact kept.move (by rintro _ ⟨⟩; exact inside) (by simp)
  | registered here vacant =>
      have filled : Kept slots (before.setSlot _ (some consumer)) :=
        ⟨kept.inside, fun other waits unpermitted =>
          (kept.noticed other waits unpermitted).imp_left fun stored => stored.fill vacant⟩
      refine filled.move (by simp) fun _ _ => .inl ⟨_, kept.inside _ _ here, ?_⟩
      simp only [State.setSlot, Function.update_self]
  | blocked here unpermitted => exact kept.move (by simp) fun _ _ => kept.noticed _ (.inl here) unpermitted
  | woken here =>
      have moved : Kept slots (before.consumerAt consumer .poll) := kept.move (by simp) (by simp)
      refine ⟨moved.inside, fun other waits unpermitted => moved.noticed other waits ?_⟩
      have different : other ≠ consumer := by
        intro same
        subst same
        simp [State.Waits, State.consumerAt] at waits
      simpa [State.setPermit, State.consumerAt, Function.update_of_ne different] using unpermitted

/-! ## The steps of a producer -/

section Producers

variable [DecidableEq Producer]

inductive Offers (slots : Nat) (state : State Element Producer Consumer) (producer : Producer) :
    State Element Producer Consumer → Prop where
  | reads {index : Nat} {thread : Consumer} (here : state.producers producer = .get index) (inside : index < slots)
      (found : state.consumerWorker index = some thread) :
      Offers slots state producer (state.producerAt producer (.set index thread))
  | skips {index : Nat} (here : state.producers producer = .get index) (inside : index < slots)
      (vacant : state.consumerWorker index = none) :
      Offers slots state producer (state.producerAt producer (.get (index + 1)))
  | ends {index : Nat} (here : state.producers producer = .get index) (past : ¬index < slots) :
      Offers slots state producer (state.producerAt producer .outside)
  | clears {index : Nat} {thread : Consumer} (here : state.producers producer = .set index thread) :
      Offers slots state producer ((state.setSlot index none).producerAt producer (.unpark index thread))
  | unparks {index : Nat} {thread : Consumer} (here : state.producers producer = .unpark index thread) :
      Offers slots state producer ((state.setPermit thread true).producerAt producer (.get (index + 1)))

theorem offers_of_offerStep (moved : offerStep slots state producer = some after) :
    Offers slots state producer after := by
  unfold offerStep at moved
  split at moved <;> rename_i here
  · cases moved
  · split at moved <;> rename_i inside
    · split at moved <;> rename_i slot
      · exact Option.some.inj moved ▸ .reads here inside slot
      · exact Option.some.inj moved ▸ .skips here inside slot
    · exact Option.some.inj moved ▸ .ends here inside
  · exact Option.some.inj moved ▸ .clears here
  · exact Option.some.inj moved ▸ .unparks here

omit [DecidableEq Consumer] in
theorem State.Announced.producerAt {next : ProducerPc Consumer} (announced : state.Announced consumer)
    (kept : (state.producers producer).Notifies consumer → next.Notifies consumer) :
    (state.producerAt producer next).Announced consumer := by
  obtain ⟨other, notifies⟩ := announced
  by_cases same : other = producer
  · subst same
    exact ⟨other, by simpa [State.producerAt] using kept notifies⟩
  · exact ⟨other, by simpa [State.producerAt, Function.update_of_ne same] using notifies⟩

omit [DecidableEq Consumer] in
theorem Kept.advance {next : ProducerPc Consumer} (kept : Kept slots state)
    (silent : ∀ thread, ¬(state.producers producer).Notifies thread) : Kept slots (state.producerAt producer next) :=
  ⟨kept.inside, fun thread waits unpermitted => (kept.noticed thread waits unpermitted).imp_right fun announced =>
    announced.producerAt fun notifies => (silent thread notifies).elim⟩

/-- The consumer that `set` throws out of a slot is the one about to be
unparked, or it does not wait, or it is in another slot or about to be unparked by another producer. -/
def SafeSet (slots : Nat) (state : State Element Producer Consumer) (producer : Producer) : ProducerPc Consumer → Prop
  | .set index threadToNotify =>
      ∀ consumer ∈ state.consumerWorker index, consumer ≠ threadToNotify → state.Waits consumer →
        state.permit consumer = false →
        (∃ other, other < slots ∧ other ≠ index ∧ state.consumerWorker other = some consumer) ∨
          ∃ other, other ≠ producer ∧ (state.producers other).Notifies consumer
  | _ => True

theorem kept_offers (kept : Kept slots before) (offered : Offers slots before producer after)
    (safe : SafeSet slots before producer (before.producers producer)) : Kept slots after := by
  cases offered with
  | reads here | skips here | ends here => exact kept.advance (by simp [here, ProducerPc.Notifies])
  | clears here =>
      rename_i index threadToNotify
      rw [here] at safe
      -- Announcing goes on: the producer keeps the thread it is to unpark.
      have announces : ∀ thread, before.Announced thread →
          ((before.setSlot index none).producerAt producer (.unpark index threadToNotify)).Announced thread :=
        fun thread announced => announced.producerAt (by simp [here, ProducerPc.Notifies])
      refine ⟨kept.inside, fun other waits unpermitted => ?_⟩
      rcases kept.noticed other waits unpermitted with ⟨slot, inside, found⟩ | announced
      · by_cases same : slot = index
        · subst same
          by_cases notified : other = threadToNotify
          · subst notified
            exact .inr ⟨producer, by simp [State.producerAt, ProducerPc.Notifies]⟩
          · rcases safe other found notified waits unpermitted with ⟨another, below, apart,
              stored⟩ | ⟨another, _, notifies⟩
            · refine .inl ⟨another, below, ?_⟩
              simpa only [State.producerAt, State.setSlot, Function.update_of_ne apart] using stored
            · exact .inr (announces other ⟨another, notifies⟩)
        · refine .inl ⟨slot, inside, ?_⟩
          simpa only [State.producerAt, State.setSlot, Function.update_of_ne same] using found
      · exact .inr (announces other announced)
  | unparks here =>
      rename_i index threadToNotify
      refine ⟨kept.inside, fun other waits unpermitted => ?_⟩
      have different : other ≠ threadToNotify := by
        intro same
        subst same
        simp [State.setPermit, State.producerAt] at unpermitted
      have unpermitted : before.permit other = false := by
        simpa [State.setPermit, State.producerAt, Function.update_of_ne different] using unpermitted
      refine (kept.noticed other waits unpermitted).imp_right fun announced => ?_
      have announced : (before.producerAt producer (.get (index + 1))).Announced other :=
        announced.producerAt fun notifies => by
          rw [here] at notifies
          exact (different notifies.symm).elim
      exact announced

/-! ## Every run of any number of producers -/

def SafeClearing (slots : Nat) (state : State Element Producer Consumer) : Label Element Producer Consumer → Prop
  | .producer producer => SafeSet slots state producer (state.producers producer)
  | .offer _ _ | .consumer _ => True

instance [Fintype Producer] : (pc : ProducerPc Consumer) → Decidable (SafeSet slots state producer pc)
  | .set index threadToNotify =>
      inferInstanceAs (Decidable (∀ consumer ∈ state.consumerWorker index, consumer ≠ threadToNotify → _))
  | .outside | .get _ | .unpark _ _ => inferInstanceAs (Decidable True)

instance [Fintype Producer] : (label : Label Element Producer Consumer) → Decidable (SafeClearing slots state label)
  | .producer _ => inferInstanceAs (Decidable (SafeSet ..))
  | .offer _ _ | .consumer _ => inferInstanceAs (Decidable True)

theorem kept_inductive [Fintype Producer] :
    ((system slots).guarded (SafeClearing slots)).Inductive fun state : State Element Producer Consumer =>
      Kept slots state := by
  constructor
  · intro state same
    subst same
    exact kept_initial
  · intro before label after kept moved
    obtain ⟨safe, moved⟩ := System.guarded_step.mp moved
    cases label with
    | offer producer element =>
        simp only [system, step, offerLast, Option.ite_none_right_eq_some, Option.some.injEq] at moved
        obtain ⟨here, rfl⟩ := moved
        exact (kept.requeue _).advance (by simp [here, ProducerPc.Notifies])
    | producer producer => exact kept_offers kept (offers_of_offerStep moved) safe
    | consumer consumer => exact kept_takes kept (takes_of_takeStep moved)

/-- No consumer is orphaned in a run whose slots are cleared safely. -/
theorem no_orphan [Fintype Producer] {state : State Element Producer Consumer}
    (reached : ((system slots).guarded (SafeClearing slots)).Reachable state) {consumer : Consumer}
    (parked : state.consumers consumer = .parked) :
    state.Stored slots consumer ∨ state.permit consumer = true ∨ state.Announced consumer := by
  cases permit : state.permit consumer with
  | true => exact .inr (.inl rfl)
  | false =>
      rcases (kept_inductive.reachable reached).noticed consumer (.inr parked) permit with stored | announced
      · exact .inl stored
      · exact .inr (.inr announced)

def sampleParks (consumer : Bool) : List (Label Unit Bool Bool) := List.replicate 5 (.consumer consumer)

/-- Both consumers park. A producer clears the first slot and unparks its
consumer, and clears the second. -/
def sampleNotified : List (Label Unit Bool Bool) :=
  sampleParks false ++ sampleParks true ++ [.consumer true] ++ [.offer false ()] ++ List.replicate 5 (.producer false)

theorem no_orphan_sample :
    ∃ state : State Unit Bool Bool, ((system 2).guarded (SafeClearing 2)).run .initial sampleNotified = some state ∧
      state.permit false = true ∧ state.permit true = false ∧ state.consumerWorker 1 = none ∧
      ∀ consumer, state.Stored 2 consumer ∨ state.permit consumer = true ∨ state.Announced consumer := by
  have ends : (((system 2).guarded (SafeClearing 2)).run .initial sampleNotified).map
      (fun state : State Unit Bool Bool => (state.permit false, state.permit true, state.consumerWorker 1,
        state.consumers false, state.consumers true)) = some (true, false, none, .parked, .parked) := by decide
  obtain ⟨state, ran, shown⟩ := Option.map_eq_some_iff.mp ends
  simp only [Prod.mk.injEq] at shown
  obtain ⟨notified, waiting, cleared, first, second⟩ := shown
  refine ⟨state, ran, notified, waiting, cleared, fun consumer => ?_⟩
  have parked : state.consumers consumer = .parked := by
    cases consumer with
    | false => exact first
    | true => exact second
  exact no_orphan (System.Reachable.run (.start rfl) ran) parked

/-- Both producers read the first consumer from slot 0. One clears the slot and
unparks it, it takes both elements, the second consumer parks in the slot, and
then the other producer clears the slot once more. -/
def sampleCleared : List (Label Unit Bool Bool) :=
  sampleParks false ++ [.offer false (), .producer false, .offer true (), .producer true, .producer false,
    .producer false] ++ List.replicate 4 (.consumer false) ++ sampleParks true ++ List.replicate 4 (.producer true) ++
    List.replicate 2 (.producer false)

theorem orphan_reached :
    ∃ state : State Unit Bool Bool, (system 2).Reachable state ∧ state.consumers true = .parked ∧
      ¬(state.Stored 2 true ∨ state.permit true = true ∨ state.Announced true) ∧
        ∀ producer, state.producers producer = .outside := by
  have ends : ((system 2).run .initial sampleCleared).map (fun state : State Unit Bool Bool =>
      (state.consumers true, state.permit true, state.consumerWorker 0, state.consumerWorker 1, state.producers false,
        state.producers true)) = some (.parked, false, none, none, .outside, .outside) := rfl
  obtain ⟨state, ran, same⟩ := Option.map_eq_some_iff.mp ends
  simp only [Prod.mk.injEq] at same
  obtain ⟨parked, unpermitted, first, second, left, right⟩ := same
  have idle : ∀ producer, state.producers producer = .outside := by
    intro producer
    cases producer <;> assumption
  refine ⟨state, System.Reachable.run (.start rfl) ran, parked, ?_, idle⟩
  rintro (⟨index, inside, found⟩ | permitted | ⟨producer, notifies⟩)
  · obtain rfl | rfl : index = 0 ∨ index = 1 := by omega
    · simp [first] at found
    · simp [second] at found
  · simp [unpermitted] at permitted
  · simp [idle, ProducerPc.Notifies] at notifies

end Producers

end Ndnperf.Java.LFBQ

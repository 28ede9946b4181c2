import Ndnperf.Java.LFBQRegistration

namespace Ndnperf.Java.LFBQ

open Library.Transition

variable {Element Consumer : Type} [DecidableEq Consumer] {slots : Nat} {consumer : Consumer} {pc : ConsumerPc}

/-! ## One producer -/

variable {state before after : State Element Unit Consumer} {label : Label Element Unit Consumer}

/-- The scan of the producer has not come past the slot. -/
def ProducerPc.Ahead (index : Nat) : ProducerPc Consumer → Prop
  | .get next => next ≤ index
  | _ => False

instance (index : Nat) : (pc : ProducerPc Consumer) → Decidable (pc.Ahead index)
  | .outside => inferInstanceAs (Decidable False)
  | .get _ => inferInstanceAs (Decidable (_ ≤ _))
  | .set _ _ => inferInstanceAs (Decidable False)
  | .unpark _ _ => inferInstanceAs (Decidable False)

/-- A single producer finds the thread it has read still in the slot when it clears it. -/
structure Registered (slots : Nat) (state : State Element Unit Consumer) : Prop where
  scanned : ∀ index thread, state.producers () = .set index thread → state.consumerWorker index = some thread
  kept : Kept slots state

theorem registered_takes (valid : Registered slots before) (taken : Takes slots before consumer after) :
    Registered slots after := by
  refine ⟨?_, kept_takes valid.kept taken⟩
  have scanned := valid.scanned
  cases taken with
  | call | value | empty | free | occupied | full | lost | blocked | woken => exact scanned
  | registered here vacant =>
      rename_i slot
      intro index thread setting
      have found := scanned index thread setting
      have different : index ≠ slot := by
        intro same
        subst same
        simp [vacant] at found
      simpa only [State.consumerAt, State.setSlot, Function.update_of_ne different] using found

theorem registered_offers (valid : Registered slots before) (offered : Offers slots before () after) :
    Registered slots after := by
  have safe : SafeSet slots before () (before.producers ()) := by
    cases here : before.producers () with
    | set index threadToNotify =>
        intro other found different
        rw [valid.scanned index threadToNotify here, Option.mem_def, Option.some.injEq] at found
        exact (different found.symm).elim
    | outside | get | unpark => trivial
  refine ⟨?_, kept_offers valid.kept offered safe⟩
  cases offered with
  | reads here inside found =>
      intro index thread setting
      simp only [State.producerAt, Function.update_self, ProducerPc.set.injEq] at setting
      obtain ⟨rfl, rfl⟩ := setting
      exact found
  | skips | ends | clears | unparks => simp [State.producerAt, State.setPermit]

theorem registered_inductive :
    (system slots : System (State Element Unit Consumer) _).Inductive (Registered slots) := by
  constructor
  · intro state same
    subst same
    exact ⟨fun _ _ => nofun, kept_initial⟩
  · intro before label after valid moved
    cases label with
    | offer producer element =>
        simp only [system, step, offerLast, Option.ite_none_right_eq_some, Option.some.injEq] at moved
        obtain ⟨here, rfl⟩ := moved
        refine ⟨by simp [State.producerAt], (valid.kept.requeue _).advance ?_⟩
        simp [here, ProducerPc.Notifies]
    | producer producer => exact registered_offers valid (offers_of_offerStep moved)
    | consumer consumer => exact registered_takes valid (takes_of_takeStep moved)

/-! ## Who will look at the queue again -/

/-- The consumer does not wait for an `unpark`, or it has one or is bound to get one. -/
def State.Awake (slots : Nat) (state : State Element Unit Consumer) (consumer : Consumer) : Prop :=
  ¬state.Waits consumer ∨ state.permit consumer = true ∨ (state.producers ()).Notifies consumer ∨
    ∃ index, index < slots ∧ (state.producers ()).Ahead index ∧ state.consumerWorker index = some consumer

instance (consumer : Consumer) : Decidable (state.Awake slots consumer) := inferInstanceAs (Decidable (_ ∨ _))

/-- While an element waits, somebody will look at the queue again. -/
def Covered (slots : Nat) (state : State Element Unit Consumer) : Prop :=
  state.deque ≠ [] → ∃ consumer, state.Awake slots consumer

/-- A consumer may put itself into a slot when the queue is empty, when the
producer has yet to read that slot, or when another consumer is awake. -/
def SafeAt (slots : Nat) (state : State Element Unit Consumer) (consumer : Consumer) : ConsumerPc → Prop
  | .compareAndSet index =>
      state.consumerWorker index = none →
        state.deque = [] ∨ (state.producers ()).Ahead index ∨ ∃ other, other ≠ consumer ∧ state.Awake slots other
  | _ => True

def SafeRegistration (slots : Nat) (state : State Element Unit Consumer) : Label Element Unit Consumer → Prop
  | .consumer consumer => SafeAt slots state consumer (state.consumers consumer)
  | _ => True

instance [Fintype Consumer] (consumer : Consumer) : (pc : ConsumerPc) → Decidable (SafeAt slots state consumer pc)
  | .compareAndSet _ =>
      have : Decidable (state.deque = []) := decidable_of_iff (state.deque.isEmpty) List.isEmpty_iff
      inferInstanceAs (Decidable (_ → _))
  | .outside | .poll | .get _ | .park | .parked | .parkNanos => inferInstanceAs (Decidable True)

instance [Fintype Consumer] (label : Label Element Unit Consumer) : Decidable (SafeRegistration slots state label) :=
  match label with
  | .consumer _ => inferInstanceAs (Decidable (SafeAt ..))
  | .offer _ _ | .producer _ => inferInstanceAs (Decidable True)

theorem awake_move (wakeful : pc ≠ .park ∧ pc ≠ .parked) : (state.consumerAt consumer pc).Awake slots consumer := by
  left
  simpa [State.Waits, State.consumerAt] using wakeful

theorem State.Awake.consumerAt {other : Consumer} (awake : state.Awake slots other) (different : other ≠ consumer) :
    (state.consumerAt consumer pc).Awake slots other := by
  rcases awake with wakeful | bound
  · left
    simpa [State.Waits, State.consumerAt, Function.update_of_ne different] using wakeful
  · exact .inr bound

theorem covered_takes (valid : Registered slots before) (covered : Covered slots before)
    (taken : Takes slots before consumer after)
    (safe : SafeAt slots before consumer (before.consumers consumer)) : Covered slots after := by
  intro waiting
  cases taken with
  | call | value | empty | free | occupied | full | lost | woken => exact ⟨consumer, awake_move (by simp)⟩
  | blocked here unpermitted =>
      obtain ⟨other, awake⟩ := covered waiting
      by_cases same : other = consumer
      · subst same
        rcases awake with wakeful | permitted | bound
        · exact (wakeful (.inl here)).elim
        · exact absurd (unpermitted.symm.trans permitted) (by decide)
        · exact ⟨other, .inr (.inr bound)⟩
      · exact ⟨other, awake.consumerAt same⟩
  | registered here vacant =>
      rename_i index
      rw [here] at safe
      rcases safe vacant with empty | ahead | ⟨other, different, awake⟩
      · exact (waiting empty).elim
      · refine ⟨consumer, .inr (.inr (.inr ⟨index, valid.kept.inside _ _ here, ahead, ?_⟩))⟩
        simp [State.consumerAt, State.setSlot]
      · refine ⟨other, State.Awake.consumerAt ?_ different⟩
        rcases awake with wakeful | permitted | notified | ⟨slot, inside, ahead, found⟩
        · exact .inl wakeful
        · exact .inr (.inl permitted)
        · exact .inr (.inr (.inl notified))
        · have apart : slot ≠ index := by
            intro same
            subst same
            simp [vacant] at found
          exact .inr (.inr (.inr ⟨slot, inside,
            ahead, by simpa [State.setSlot, Function.update_of_ne apart] using found⟩))

omit [DecidableEq Consumer] in
theorem State.Awake.producerAt {next : ProducerPc Consumer} (awake : state.Awake slots consumer)
    (kept : (state.producers ()).Notifies consumer → next.Notifies consumer ∨ state.permit consumer = true)
    (left : ∀ index < slots, (state.producers ()).Ahead index → state.consumerWorker index = some consumer →
      next.Ahead index ∨ next.Notifies consumer) :
    (state.producerAt () next).Awake slots consumer := by
  rcases awake with wakeful | permitted | notified | ⟨index, inside, ahead, found⟩
  · exact .inl wakeful
  · exact .inr (.inl permitted)
  · rcases kept notified with notified | permitted
    · exact .inr (.inr (.inl (by simpa [State.producerAt] using notified)))
    · exact .inr (.inl permitted)
  · rcases left index inside ahead found with ahead | notified
    · exact .inr (.inr (.inr ⟨index, inside, by simpa [State.producerAt] using ahead, found⟩))
    · exact .inr (.inr (.inl (by simpa [State.producerAt] using notified)))

theorem covered_offers (covered : Covered slots before) (offered : Offers slots before () after) :
    Covered slots after := by
  intro waiting
  cases offered with
  | reads here inside found =>
      rename_i index thread
      exact ⟨thread, .inr (.inr (.inl (by simp [State.producerAt, ProducerPc.Notifies])))⟩
  | clears here =>
      rename_i index thread
      exact ⟨thread, .inr (.inr (.inl (by simp [State.producerAt, ProducerPc.Notifies])))⟩
  | unparks here =>
      rename_i index thread
      exact ⟨thread, .inr (.inl (by simp [State.producerAt, State.setPermit]))⟩
  | skips here inside vacant =>
      rename_i index
      obtain ⟨consumer, awake⟩ := covered waiting
      refine ⟨consumer, awake.producerAt (by simp [here, ProducerPc.Notifies]) fun slot _ ahead found => .inl ?_⟩
      have apart : slot ≠ index := by
        intro same
        subst same
        simp [vacant] at found
      simp only [here, ProducerPc.Ahead] at ahead ⊢
      omega
  | ends here past =>
      obtain ⟨consumer, awake⟩ := covered waiting
      refine ⟨consumer, awake.producerAt (by simp [here, ProducerPc.Notifies]) fun slot inside ahead _ => ?_⟩
      simp only [here, ProducerPc.Ahead] at ahead
      omega

omit [DecidableEq Consumer] in
/-- A new scan reaches every waiting consumer, because each is in a slot. -/
theorem covered_offerLast [Nonempty Consumer] {element : Element} (valid : Registered slots before)
    (here : before.producers () = .outside) :
    Covered slots ({ before with deque := before.deque ++ [element] }.producerAt () (.get 0)) := by
  intro _
  obtain ⟨consumer⟩ := ‹Nonempty Consumer›
  refine ⟨consumer, ?_⟩
  by_cases waits : before.Waits consumer
  · cases permit : before.permit consumer with
    | true => exact .inr (.inl permit)
    | false =>
        rcases valid.kept.noticed consumer waits permit with ⟨index, inside, found⟩ | ⟨_, notified⟩
        · exact .inr (.inr (.inr ⟨index, inside, by simp [State.producerAt, ProducerPc.Ahead], found⟩))
        · simp [here, ProducerPc.Notifies] at notified
  · exact .inl waits

/-! ## Every run -/

theorem covered_inductive [Fintype Consumer] [Nonempty Consumer] :
    ((system slots).guarded (SafeRegistration slots)).Inductive fun state : State Element Unit Consumer =>
      Registered slots state ∧ Covered slots state := by
  constructor
  · intro state same
    subst same
    exact ⟨registered_inductive.start rfl, fun waiting => (waiting rfl).elim⟩
  · intro before label after held moved
    obtain ⟨valid, covered⟩ := held
    obtain ⟨safe, moved⟩ := System.guarded_step.mp moved
    refine ⟨registered_inductive.step valid moved, ?_⟩
    cases label with
    | offer producer element =>
        simp only [system, step, offerLast, Option.ite_none_right_eq_some, Option.some.injEq] at moved
        obtain ⟨here, rfl⟩ := moved
        exact covered_offerLast valid here
    | producer producer => exact covered_offers covered (offers_of_offerStep moved)
    | consumer consumer => exact covered_takes valid covered (takes_of_takeStep moved) safe

/-- No wake-up is lost in a run whose registrations are safe. -/
theorem no_lost_wakeup [Fintype Consumer] [Nonempty Consumer] {state : State Element Unit Consumer}
    (reached : ((system slots).guarded (SafeRegistration slots)).Reachable state) : ¬LostWakeup state := by
  intro held
  obtain ⟨waiting, blocked, idle⟩ := held
  obtain ⟨consumer, wakeful | permitted | notified | ⟨_, _, ahead, _⟩⟩ :=
    (covered_inductive.reachable reached).2 waiting
  · exact wakeful (.inr (blocked consumer).1)
  · exact absurd ((blocked consumer).2.symm.trans permitted) (by decide)
  · simp [idle, ProducerPc.Notifies] at notified
  · simp [idle, ProducerPc.Ahead] at ahead

/-- One slot and one consumer, which puts itself into the slot before the first
element arrives: the scan finds it. -/
def samplePatient : List (Label Unit Unit Unit) :=
  [.consumer (), .consumer (), .consumer (), .consumer (), .consumer (), .offer () (), .producer (), .producer (),
    .producer (), .producer ()]

theorem no_lost_wakeup_sample :
    ∃ state, ((system 1).guarded (SafeRegistration 1)).run .initial samplePatient = some state ∧ ¬LostWakeup state := by
  have ends : (((system 1).guarded (SafeRegistration 1)).run .initial samplePatient).isSome := by decide
  obtain ⟨state, ran⟩ := Option.isSome_iff_exists.mp ends
  exact ⟨state, ran, no_lost_wakeup (System.Reachable.run (.start rfl) ran)⟩

/-- The consumer finds the queue empty, the producer then offers an element and
finds the slot empty, and only now does the consumer take the slot and park. -/
def sampleHasty : List (Label Unit Unit Unit) :=
  [.consumer (), .consumer (), .offer () (), .producer (), .producer (), .consumer (), .consumer (), .consumer ()]

theorem lost_wakeup_reached :
    ∃ state : State Unit Unit Unit, (system 1).Reachable state ∧ LostWakeup state := by
  have ends : ((system 1).run .initial sampleHasty).map (fun state : State Unit Unit Unit =>
      (state.deque, state.consumers (), state.permit (), state.producers ())) =
        some ([()], .parked, false, .outside) := rfl
  obtain ⟨state, ran, same⟩ := Option.map_eq_some_iff.mp ends
  simp only [Prod.mk.injEq] at same
  obtain ⟨waiting, parked, unpermitted, idle⟩ := same
  exact ⟨state, System.Reachable.run (.start rfl) ran, by simp [waiting], fun _ => ⟨parked, unpermitted⟩, fun _ => idle⟩

end Ndnperf.Java.LFBQ

import Mathlib.Algebra.Order.BigOperators.Group.Finset
import Ndnperf.Cxx.QueueBag

namespace Ndnperf.Cxx.BlockingConcurrentQueue

open Library Library.Word Library.Transition Library.Threads

variable {Thread Address Element : Type} [Fintype Thread] {before after state : State Thread Address Element}
  {thread ptr : Thread} {noexceptCtor : Bool} {pc : Pc Thread Element}

/-! ## Permits and elements -/

namespace State

/-- The elements that no thread has taken. -/
def unclaimed (state : State Thread Address Element) : Nat :=
  ∑ ptr, ((state.producers ptr).enqueued.length - (state.producers ptr).headIndex)

/-- Whether a thread with a permit is still to take an element. -/
def seeks (state : State Thread Address Element) (thread : Thread) : Nat :=
  state.permits thread - (state.inHand thread).toList.length

end State

variable [DecidableEq Thread] [DecidableEq Address]

omit [Fintype Thread] [DecidableEq Thread] [DecidableEq Address] in
theorem State.inHand_add_seeks (thread : Thread) :
    (state.inHand thread).toList.length + state.seeks thread = state.permits thread := by
  cases claimed : state.inHand thread with
  | none =>
      rw [State.seeks, claimed]
      exact Nat.zero_add _
  | some element =>
      obtain ⟨ptr, here, _⟩ := Option.bind_eq_some_iff.mp claimed
      rw [State.seeks, claimed, (State.permits_of_ptr here).1]
      rfl

omit [DecidableEq Thread] [DecidableEq Address] in
theorem Sound.unclaimed_eq (sound : Sound noexceptCtor state) :
    state.unclaimed + ∑ thread, state.sema.returned thread =
      state.sema.signalled + ∑ thread, state.owes thread + ∑ thread, state.seeks thread := by
  have puts := sound.puts
  have takes := sound.takes
  have left : state.unclaimed + ∑ ptr, (state.producers ptr).headIndex = ∑ ptr,
      (state.producers ptr).enqueued.length := by
    rw [State.unclaimed, ← Finset.sum_add_distrib]
    exact Finset.sum_congr rfl fun ptr _ => Nat.sub_add_cancel (sound.producers ptr).head_le
  have returned : ∑ thread, state.sema.returned thread =
      ∑ thread, (state.taken thread).length + ∑ thread, state.seeks thread := by
    rw [← Finset.sum_add_distrib]
    refine Finset.sum_congr rfl fun thread _ => ?_
    rw [sound.permits, State.taken, List.length_append, Nat.add_assoc, State.inHand_add_seeks]
  omega

/-- There is an element for each permit that has been signalled and not
returned, for each signal that is still to come, and for each thread that is
about to take one. -/
theorem permits_match (few : Fintype.card Thread < 2 ^ 31) (reached : (system noexceptCtor).Reachable state)
    (young : Young state) :
    state.unclaimed = (state.sema.signalled - ∑ thread, state.sema.returned thread) + ∑ thread, state.owes thread +
      ∑ thread, state.seeks thread := by
  classical
  have sound := ((refines few noexceptCtor).invariant reached young).1
  have account := sound.unclaimed_eq
  have returned := sound.sema.returned_le
  omega

/-- A thread has enqueued two elements and waited for a permit, and another has
enqueued one and not signalled it yet. -/
def permitHeld : List (Label Bool Nat Nat) :=
  .enqueue false 7 true :: List.replicate 11 (.advance false ⟨true, some 3, false⟩ false) ++
    .enqueue false 8 true :: List.replicate 5 (.advance false ⟨true, some 3, false⟩ false) ++
    .enqueue true 9 true :: List.replicate 9 (.advance true ⟨true, some 4, false⟩ false) ++
    .waitDequeue false :: List.replicate 4 (.advance false ⟨true, some 3, false⟩ false)

theorem permitHeld_match : ∃ state : State Bool Nat Nat,
    (system true).run (.initial fun _ _ => ⟨0, fun _ => none⟩) permitHeld = some state ∧
      (state.sema.signalled, state.sema.returned false, state.owes true, state.seeks false) = (2, 1, 1, 1) ∧
      state.unclaimed = (state.sema.signalled - ∑ thread, state.sema.returned thread) + ∑ thread, state.owes thread +
        ∑ thread, state.seeks thread := by
  have ran : ∃ state : State Bool Nat Nat,
      (system true).run (.initial fun _ _ => ⟨0, fun _ => none⟩) permitHeld = some state ∧
      (state.sema.signalled, state.sema.returned false, state.owes true, state.seeks false) = (2, 1, 1, 1) ∧
        (state.producers false).enqueued = [7, 8] ∧ (state.producers true).enqueued = [9] ∧
        (state.producers false).drawn = 0 ∧ (state.producers true).drawn = 0 := ⟨_, rfl, rfl, rfl, rfl, rfl, rfl⟩
  obtain ⟨state, ran, figures, first, second, undrawn, idle⟩ := ran
  have signalled : state.sema.signalled = 2 := congrArg Prod.fst figures
  refine ⟨state, ran, figures, permits_match (by decide) (.run (.start ⟨_, rfl⟩) ran) ⟨fun ptr => ?_, ?_⟩⟩
  · cases ptr with
    | false =>
        rw [ImplicitProducer.Young, first, undrawn]
        decide
    | true =>
        rw [ImplicitProducer.Young, second, idle]
        decide
  · rw [signalled]
    decide

omit [DecidableEq Thread] [DecidableEq Address] in
/-- A thread that holds a ticket is still to take an element. -/
theorem Sound.drawing_le (sound : Sound noexceptCtor state) (thread : Thread) :
    ∑ ptr, (if ((state.producers ptr).consumers thread).Draws then 1 else 0) ≤ state.seeks thread := by
  cases here : (state.pcs thread).ptr with
  | none =>
      refine (Finset.sum_eq_zero fun ptr _ => ?_).trans_le (Nat.zero_le _)
      obtain ⟨result, outside⟩ := sound.idle ptr thread (by rw [here]; exact (Option.some_ne_none ptr).symm)
      rw [outside]
      exact if_neg id
  | some ptr =>
      have others : ∀ other, other ≠ ptr → (if ((state.producers other).consumers thread).Draws then 1 else 0) = 0 := by
        intro other apart
        obtain ⟨result, outside⟩ := sound.idle other thread fun also => apart (Option.some.inj (also.symm.trans here))
        rw [outside]
        exact if_neg id
      rw [Finset.sum_eq_single_of_mem ptr (Finset.mem_univ ptr) fun other _ => others other]
      split
      · rename_i draws
        have empty : state.inHand thread = none := by
          rw [State.inHand, here, Option.bind_some, ImplicitProducer.State.inHand]
          cases place : (state.producers ptr).consumers thread <;> rw [place] at draws <;>
            first | rfl | exact draws.elim
        rw [State.seeks, empty, (State.permits_of_ptr here).1]
        exact Nat.le_refl 1
      · exact Nat.zero_le _

omit [DecidableEq Address] in
/-- A thread with a permit finds more elements in some producer than tickets
are out for them. -/
theorem Sound.offered (sound : Sound noexceptCtor state) (searches : Searches state thread) :
    ∃ ptr ∈ state.producerList, (state.producers ptr).Offers := by
  have seeks : state.seeks thread = 1 := by
    rw [State.seeks, searches.permits, searches.inHand]
    rfl
  have idle : ∑ ptr, (if ((state.producers ptr).consumers thread).Draws then 1 else 0) = 0 := by
    refine Finset.sum_eq_zero fun ptr _ => ?_
    obtain ⟨result, outside⟩ := searches.idle ptr
    rw [outside]
    exact if_neg id
  have fewer : (∑ other, ∑ ptr, (if ((state.producers ptr).consumers other).Draws then 1 else 0)) < ∑ other,
      state.seeks other :=
    Finset.sum_lt_sum (fun other _ => sound.drawing_le other)
    ⟨thread, Finset.mem_univ _, by rw [idle, seeks]; exact Nat.one_pos⟩
  rw [Finset.sum_comm] at fewer
  have account := sound.unclaimed_eq
  have returned := sound.sema.returned_le
  have less : (∑ ptr, (state.producers ptr).drawing) < state.unclaimed := by
    have drawing : (∑ ptr, (state.producers ptr).drawing) =
        ∑ ptr, ∑ other, (if ((state.producers ptr).consumers other).Draws then 1 else 0) :=
      Finset.sum_congr rfl fun ptr _ => Finset.card_filter _ _
    omega
  obtain ⟨ptr, _, offers⟩ := Finset.exists_lt_of_sum_lt less
  have behind := (sound.producers ptr).head_le
  refine ⟨ptr, ?_, ?_⟩
  · by_contra absent
    rw [(sound.listed ptr absent).2] at offers
    exact Nat.not_lt_zero _ (Nat.lt_of_lt_of_le offers (Nat.sub_le _ _))
  · rw [ImplicitProducer.State.Offers]
    omega

/-! ## A thread that runs alone -/

/-- The steps of one thread. -/
def Own (thread : Thread) : Label Thread Address Element → Prop
  | .advance other _ _ => other = thread
  | .enqueue _ _ _ | .waitDequeue _ => False

/-- A step of a thread for which nothing is allocated or constructed. -/
def onward (thread : Thread) : Label Thread Address Element := .advance thread ⟨true, none, false⟩ false

theorem step_consume (here : (state.pcs thread).ptr = some ptr)
    {producer : ImplicitProducer.State Thread Address Element}
    (consumed : ImplicitProducer.consume (state.producers ptr) thread = some producer) :
    step noexceptCtor state (onward thread) = some (state.setProducer ptr producer) := by
  have inDequeue : ∀ failed, state.inDequeue thread ptr failed = some (state.setProducer ptr producer) := by
    intro failed
    simp only [State.inDequeue]
    split
    · rename_i outside
      simp only [ImplicitProducer.consume, outside, reduceCtorEq] at consumed
    · rename_i outside
      simp only [ImplicitProducer.consume, outside, reduceCtorEq] at consumed
    · rw [consumed]
      rfl
  cases place : state.pcs thread with
  | outside | enqueue | signal | wait | producerListTail | sizeTail | sizeHead | secondListTail =>
      rw [place] at here
      cases here
  | dequeueBest | dequeueOther =>
      rw [place] at here
      cases here
      simp only [step, onward, advance, place]
      exact inDequeue _

theorem run_consumes (here : (state.pcs thread).ptr = some ptr)
    {producer : ImplicitProducer.State Thread Address Element}
    {labels : List (ImplicitProducer.Label Thread Address Element)}
    (chosen : ∀ label ∈ labels, ImplicitProducer.Own thread label)
    (ran : (ImplicitProducer.system noexceptCtor).run (state.producers ptr) labels = some producer) :
    (system noexceptCtor).run state (List.replicate labels.length (onward thread)) = some
    (state.setProducer ptr producer) := by
  induction labels generalizing state with
  | nil =>
      simp only [System.run, Option.some.injEq] at ran
      rw [← ran, State.setProducer, Function.update_eq_self]
      rfl
  | cons label rest ih =>
      obtain ⟨middle, moved, remaining⟩ := System.run_cons.mp ran
      obtain ⟨first, others⟩ := List.forall_mem_cons.mp chosen
      rw [show label = .consume thread from first] at moved
      have same : (state.setProducer ptr middle).producers ptr = middle := State.setProducer_self
      have further := @ih (state.setProducer ptr middle) here others (same.symm ▸ remaining)
      rw [State.setProducer, State.setProducer, Function.update_idem] at further
      exact System.run_cons.mpr ⟨_, step_consume here moved, further⟩

omit [Fintype Thread] [DecidableEq Thread] [DecidableEq Address] in
theorem own_onward (count : Nat) :
    ∀ label ∈ List.replicate count (onward thread : Label Thread Address Element), Own thread label := by
  intro label member
  rw [List.eq_of_mem_replicate member]
  rfl

theorem canReach_onward {Goal : State Thread Address Element → Prop}
    (moved : step noexceptCtor before (onward thread) = some after)
    (further : (system noexceptCtor).CanReach (Own thread) Goal after) : (system noexceptCtor).CanReach
    (Own thread) Goal before :=
  System.canReach_cons (show Own thread (onward thread) from rfl) moved further

theorem canReach_consumes {Goal : ImplicitProducer.State Thread Address Element → Prop}
    (here : (state.pcs thread).ptr = some ptr)
    (reaches : (ImplicitProducer.system noexceptCtor).CanReach (ImplicitProducer.Own thread) Goal
      (state.producers ptr)) :
    (system noexceptCtor).CanReach (Own thread)
      (fun after => ∃ producer, Goal producer ∧ after = state.setProducer ptr producer) state := by
  obtain ⟨labels, producer, chosen, ran, met⟩ := reaches
  exact ⟨_, _, own_onward _, run_consumes here chosen ran, producer, met, rfl⟩

theorem step_returns (here : (state.pcs thread).ptr = some ptr) {element : Element}
    (outside : (state.producers ptr).consumers thread = .outside (some element)) :
    ∃ after, step noexceptCtor state (onward thread) = some after ∧ after.pcs thread = .outside (some element) := by
  cases place : state.pcs thread with
  | outside | enqueue | signal | wait | producerListTail | sizeTail | sizeHead | secondListTail =>
      rw [place] at here
      cases here
  | dequeueBest | dequeueOther =>
      rw [place] at here
      cases here
      simp only [step, onward, advance, place, State.inDequeue, outside]
      exact ⟨_, rfl, State.threadAt_self⟩

/-- The call has returned an element. -/
def Returned (thread : Thread) (state : State Thread Address Element) : Prop :=
  ∃ element, state.pcs thread = .outside (some element)

/-- Within the words, also when `calls` more tickets have been drawn. -/
structure Room (calls : Nat) (state : State Thread Address Element) : Prop where
  enqueued : ∀ ptr, (state.producers ptr).enqueued.length < 2 ^ 62
  drawn : ∀ ptr, (state.producers ptr).drawn + calls < 2 ^ 62
  signalled : state.sema.signalled < 2 ^ 63

omit [Fintype Thread] [DecidableEq Thread] [DecidableEq Address] in
theorem Room.young {calls : Nat} (room : Room calls state) : Young state :=
  ⟨fun ptr => ⟨room.enqueued ptr, Nat.lt_of_le_of_lt (Nat.le_add_right _ _) (room.drawn ptr)⟩, room.signalled⟩

/-- A thread with a permit that is in no call of `dequeue`. -/
structure Ready (noexceptCtor : Bool) (state : State Thread Address Element) (thread : Thread) : Prop where
  sound : Sound noexceptCtor state
  whole : state.Whole
  searches : Searches state thread
  room : Room 1 state

/-- A thread that is about to look for an element from the start. -/
structure Fresh (noexceptCtor : Bool) (state : State Thread Address Element) (thread : Thread) : Prop where
  here : state.pcs thread = .producerListTail
  ready : Ready noexceptCtor state thread

omit [DecidableEq Address] in
theorem Ready.look (ready : Ready noexceptCtor state thread) (looks : pc.Looks) (found : pc.Found) :
    Ready noexceptCtor (state.threadAt thread pc) thread := by
  classical
  have keeps := ready.sound.look ready.searches looks found
  have here : ((state.threadAt thread pc).pcs thread).Looks := by
    rw [State.threadAt_self]
    exact looks
  exact ⟨keeps.sound, keeps.whole ready.sound ready.whole, keeps.sound.searches here,
    ⟨ready.room.enqueued, ready.room.drawn, ready.room.signalled⟩⟩

/-! ## A call of `dequeue` -/

/-- A call returns an element of a producer that offers one. -/
theorem Ready.finds (ready : Ready noexceptCtor state thread) (calls : pc.ptr = some ptr)
    (offers : (state.producers ptr).Offers) :
    (system noexceptCtor).CanReach (Own thread) (Returned thread) (state.callDequeue thread ptr pc) := by
  have here : ((state.callDequeue thread ptr pc).pcs thread).ptr = some ptr := by
    rw [State.callDequeue, State.threadAt_self, calls]
  have called : (state.callDequeue thread ptr pc).producers ptr = (state.producers ptr).consumerAt thread .loadTail :=
    State.setProducer_self
  have finds := (ready.sound.producers ptr).finds (ready.room.enqueued ptr) (ready.room.drawn ptr) offers
      (ready.searches.idle ptr)
  rw [← called] at finds
  refine System.canReach_trans (canReach_consumes here finds) fun {middle} found => ?_
  obtain ⟨producer, outside, made⟩ := found
  have there : middle.producers ptr = producer := made ▸ State.setProducer_self
  have pcs : (middle.pcs thread).ptr = some ptr := made ▸ here
  have offered : (state.producers ptr).headIndex < (state.producers ptr).enqueued.length :=
    Nat.lt_of_add_right_lt offers
  rw [List.getElem?_eq_getElem offered, ← there] at outside
  obtain ⟨after, moved, returned⟩ := step_returns pcs outside
  exact canReach_onward moved (System.canReach_refl ⟨_, returned⟩)

/-- A call that has found nothing has changed nothing. -/
structure Misses (noexceptCtor : Bool) (before after : State Thread Address Element) (thread ptr : Thread)
    (pc : Pc Thread Element) :
    Prop where
  ready : Ready noexceptCtor after thread
  here : after.pcs thread = pc
  failed : (after.producers ptr).consumers thread = .outside none
  list : after.producerList = before.producerList
  others : ∀ other, other ≠ ptr → after.producers other = before.producers other

theorem Ready.misses (few : Fintype.card Thread < 2 ^ 31) (ready : Ready noexceptCtor state thread)
    (calls : pc.ptr = some ptr) (quiet : ¬(state.producers ptr).Offers) :
    ∃ after, (system noexceptCtor).run (state.callDequeue thread ptr pc) (List.replicate 3 (onward thread)) =
      some after ∧ Misses noexceptCtor state after thread ptr pc := by
  classical
  have here : ((state.callDequeue thread ptr pc).pcs thread).ptr = some ptr := by
    rw [State.callDequeue, State.threadAt_self, calls]
  have called : (state.callDequeue thread ptr pc).producers ptr = (state.producers ptr).consumerAt thread .loadTail :=
    State.setProducer_self
  have read := (ready.sound.producers ptr).reads (ready.room.young.producers ptr) thread
  rw [if_neg quiet, ← called] at read
  have ran := run_consumes here (fun label member => List.eq_of_mem_replicate member) read
  rw [List.length_replicate] at ran
  have keeps := ready.sound.callDequeue ready.searches calls rfl
  refine ⟨_, ran, ?_⟩
  generalize made : (state.callDequeue thread ptr pc).setProducer ptr
    ((state.producers ptr).consumerAt thread (.outside none)) =
    after at ran
  have pcs : after.pcs thread = pc := made ▸ State.threadAt_self
  have there : after.producers ptr = (state.producers ptr).consumerAt thread (.outside none) :=
    made ▸ State.setProducer_self
  have others : ∀ other, other ≠ ptr → after.producers other = state.producers other := fun other apart =>
    made ▸ (State.setProducer_other apart).trans (State.setProducer_other apart)
  have counts : ∀ other, (after.producers other).enqueued = (state.producers other).enqueued ∧
      (after.producers other).drawn = (state.producers other).drawn := by
    intro other
    by_cases same : other = ptr
    · rw [same, there]
      exact ⟨rfl, rfl⟩
    · rw [others other same]
      exact ⟨rfl, rfl⟩
  have room : Room 1 after := by
    refine ⟨fun other => ?_, fun other => ?_, made ▸ ready.room.signalled⟩
    · rw [(counts other).1]
      exact ready.room.enqueued other
    · rw [(counts other).2]
      exact ready.room.drawn other
  have failed : (after.producers ptr).consumers thread = .outside none :=
    there.symm ▸ ImplicitProducer.State.consumerAt_self
  have held := (refines few noexceptCtor).invariant_run ⟨keeps.sound, keeps.whole ready.sound ready.whole⟩
      ran room.young
  have searches := held.1.searches_again (pcs.symm ▸ calls) failed
  exact ⟨⟨held.1, held.2, searches, room⟩, pcs, failed, made ▸ rfl, others⟩

/-! ## A round of `try_dequeue` -/

/-- It has returned an element, or starts again. -/
def Ends (noexceptCtor : Bool) (thread : Thread) (quiet : Prop) (state : State Thread Address Element) : Prop :=
  Returned thread state ∨ Fresh noexceptCtor state thread ∧ quiet

omit [DecidableEq Thread] [DecidableEq Address] in
theorem Ends.weaken {quiet weaker : Prop} (ends : Ends noexceptCtor thread quiet state) (weaken : quiet → weaker) :
    Ends noexceptCtor thread weaker state :=
  ends.imp_right (And.imp_right weaken)

omit [DecidableEq Address] in
theorem Ready.again (ready : Ready noexceptCtor state thread) :
    Fresh noexceptCtor (state.threadAt thread .producerListTail) thread :=
  ⟨State.threadAt_self, ready.look trivial trivial⟩

/-- None of the producers in the list offers an element. -/
def State.Quiet (state : State Thread Address Element) (list : List Thread) : Prop :=
  ∀ ptr ∈ list, ¬(state.producers ptr).Offers

/-- The other producers are tried one after the other. -/
theorem Ready.tries (few : Fintype.card Thread < 2 ^ 31) (ready : Ready noexceptCtor state thread) (best : Thread)
    (rest : List Thread) :
    (system noexceptCtor).CanReach (Own thread)
      (Ends noexceptCtor thread (∀ ptr ∈ rest, ptr ≠ best → ¬(state.producers ptr).Offers))
      (state.tryFrom thread best rest) := by
  induction rest generalizing state with
  | nil => exact System.canReach_refl (.inr ⟨ready.again, fun _ member => absurd member List.not_mem_nil⟩)
  | cons ptr rest ih =>
      rw [State.tryFrom]
      split
      · rename_i same
        refine System.canReach_mono (ih ready) fun ends => ends.weaken fun quiet other member apart => ?_
        exact quiet other ((List.mem_cons.mp member).resolve_left fun equal => apart (equal.trans same)) apart
      · by_cases offers : (state.producers ptr).Offers
        · exact System.canReach_mono (ready.finds rfl offers) .inl
        · obtain ⟨middle, ran, misses⟩ := ready.misses few (show Pc.ptr (.dequeueOther best ptr rest) = some ptr
            from rfl) offers
          have moved : step noexceptCtor middle (onward thread) = some (middle.tryFrom thread best rest) := by
            simp only [step, onward, advance, misses.here, State.inDequeue, misses.failed]
          refine System.canReach_run (own_onward 3) ran (canReach_onward moved ?_)
          refine System.canReach_mono (ih misses.ready) fun ends => ends.weaken fun quiet other member apart => ?_
          by_cases same : other = ptr
          · exact same ▸ offers
          · have none := quiet other ((List.mem_cons.mp member).resolve_left same) apart
            rwa [misses.others other same] at none

theorem Ready.tries_others (few : Fintype.card Thread < 2 ^ 31) (ready : Ready noexceptCtor state thread)
    (best : Thread) :
    (system noexceptCtor).CanReach (Own thread)
      (Ends noexceptCtor thread (∀ ptr ∈ state.producerList, ptr ≠ best → ¬(state.producers ptr).Offers))
      (state.threadAt thread (.secondListTail best)) := by
  have loaded : step noexceptCtor (state.threadAt thread (.secondListTail best)) (onward thread) =
      some ((state.threadAt thread (.secondListTail best)).tryFrom thread best state.producerList) := by
    simp only [step, onward, advance, State.threadAt_self]
    rfl
  have ready := ready.look (show Pc.Looks (.secondListTail best) from trivial) trivial
  exact canReach_onward loaded (ready.tries few best state.producerList)

/-- The fullest producer is tried first. -/
theorem Ready.tries_best (few : Fintype.card Thread < 2 ^ 31) (ready : Ready noexceptCtor state thread)
    (best : Thread) :
    (system noexceptCtor).CanReach (Own thread) (Ends noexceptCtor thread (state.Quiet state.producerList))
      (state.callDequeue thread best (.dequeueBest best)) := by
  by_cases offers : (state.producers best).Offers
  · exact System.canReach_mono (ready.finds rfl offers) .inl
  · obtain ⟨middle, ran, misses⟩ := ready.misses few (show Pc.ptr (.dequeueBest best) = some best from rfl) offers
    have moved : step noexceptCtor middle (onward thread) = some (middle.threadAt thread (.secondListTail best)) := by
      simp only [step, onward, advance, misses.here, State.inDequeue, misses.failed]
    refine System.canReach_run (own_onward 3) ran (canReach_onward moved ?_)
    refine System.canReach_mono (misses.ready.tries_others few best) fun ends => ends.weaken fun quiet ptr member => ?_
    by_cases same : ptr = best
    · exact same ▸ offers
    · have none := quiet ptr (misses.list ▸ member) same
      rwa [misses.others ptr same] at none

theorem Ready.scanned (few : Fintype.card Thread < 2 ^ 31) (ready : Ready noexceptCtor state thread)
    {scan : Scan Thread} (found : scan.Found) :
    (system noexceptCtor).CanReach (Own thread)
      (Ends noexceptCtor thread (0 < scan.nonEmptyCount → state.Quiet state.producerList))
        (state.scanned thread scan) := by
  rw [State.scanned]
  split
  · rename_i some
    split
    · exact System.canReach_mono (ready.tries_best few _) fun ends => ends.weaken fun quiet _ => quiet
    · rename_i none
      exact absurd (found none).1 some.ne'
  · rename_i empty
    exact System.canReach_refl (.inr ⟨ready.again, fun some => absurd some empty⟩)

omit [DecidableEq Thread] [DecidableEq Address] in
theorem sizeApprox_pos {producer : ImplicitProducer.State Thread Address Element}
    (sound : ImplicitProducer.Sound noexceptCtor producer) (few : producer.enqueued.length < 2 ^ 62)
    (offers : producer.Offers) :
    0 < sizeApprox producer.tailIndex producer.headIndex := by
  have behind : producer.headIndex < producer.enqueued.length := Nat.lt_of_add_right_lt offers
  rw [sizeApprox, sound.tailIndex, if_pos ((ImplicitProducer.circularLessThan_iff (by omega) (by omega)).mpr behind),
    ImplicitProducer.uint64_sub (by omega) (by omega)]
  omega

omit [Fintype Thread] [DecidableEq Thread] [DecidableEq Address] in
theorem Scan.see_nonEmptyCount (scan : Scan Thread) (ptr : Thread) (size : Nat) :
    (scan.see ptr size).nonEmptyCount = scan.nonEmptyCount + if size > 0 then 1 else 0 := by
  rw [Scan.see]
  split
  · split <;> rfl
  · rfl

/-- What the loop that looks for the fullest producer has passed offers nothing,
unless an element is returned. -/
theorem Ready.scans (few : Fintype.card Thread < 2 ^ 31) (ready : Ready noexceptCtor state thread) {scan : Scan Thread}
    (found : scan.Found) (rest : List Thread) :
    (system noexceptCtor).CanReach (Own thread)
      (Ends noexceptCtor thread ((0 < scan.nonEmptyCount → state.Quiet state.producerList) ∧
        ∀ ptr ∈ rest, ptr ∈ state.producerList → ¬(state.producers ptr).Offers)) (state.scanFrom thread scan rest) := by
  induction rest generalizing state scan with
  | nil =>
      refine System.canReach_mono (ready.scanned few found) fun ends => ends.weaken fun quiet => ?_
      exact ⟨quiet, fun _ member => absurd member List.not_mem_nil⟩
  | cons ptr rest ih =>
      rw [State.scanFrom]
      split
      · have tailReady := ready.look (show Pc.Looks (.sizeTail scan ptr rest) from trivial) found
        have headReady := tailReady.look (show Pc.Looks (.sizeHead scan ptr rest (state.producers ptr).tailIndex)
            from trivial) found
        have tailRead : step noexceptCtor (state.threadAt thread (.sizeTail scan ptr rest)) (onward thread) =
            some ((state.threadAt thread (.sizeTail scan ptr rest)).threadAt thread
              (.sizeHead scan ptr rest (state.producers ptr).tailIndex)) := by
          simp only [step, onward, advance, State.threadAt_self, State.threadAt_producers]
        refine canReach_onward tailRead ?_
        generalize made : (state.threadAt thread (.sizeTail scan ptr rest)).threadAt thread
          (.sizeHead scan ptr rest (state.producers ptr).tailIndex) = middle at headReady
        have here : middle.pcs thread = .sizeHead scan ptr rest (state.producers ptr).tailIndex :=
          made ▸ State.threadAt_self
        have producers : middle.producers = state.producers := made ▸ rfl
        have list : middle.producerList = state.producerList := made ▸ rfl
        have headRead : step noexceptCtor middle (onward thread) = some (middle.scanFrom thread
            (scan.see ptr (sizeApprox (state.producers ptr).tailIndex (state.producers ptr).headIndex)) rest) := by
          simp only [step, onward, advance, here, producers]
        refine canReach_onward headRead (System.canReach_mono (ih headReady (found.see _ _)) fun ends => ends.weaken
          fun quiet => ?_)
        rw [State.Quiet, producers, list, Scan.see_nonEmptyCount] at quiet
        refine ⟨fun some => quiet.1 (Nat.lt_add_right _ some), fun other member listed offers => ?_⟩
        rcases List.mem_cons.mp member with same | later
        · rw [same] at listed offers
          have size := sizeApprox_pos (ready.sound.producers ptr) (ready.room.enqueued ptr) offers
          rw [if_pos size] at quiet
          exact quiet.1 (Nat.succ_pos _) ptr listed offers
        · exact quiet.2 other later listed offers
      · rename_i most
        refine System.canReach_mono (ready.scanned few found) fun ends => ends.weaken fun quiet => ?_
        have none := quiet (by omega)
        exact ⟨fun _ => none, fun other _ listed => none other listed⟩

/-- A round that starts with a permit returns an element. -/
theorem Fresh.returns (few : Fintype.card Thread < 2 ^ 31) (fresh : Fresh noexceptCtor state thread) :
    (system noexceptCtor).CanReach (Own thread) (Returned thread) state := by
  have loaded : step noexceptCtor state (onward thread) = some (state.scanFrom thread .start state.producerList) := by
    simp only [step, onward, advance, fresh.here]
  refine canReach_onward loaded (System.canReach_mono (fresh.ready.scans few (fun _ => ⟨rfl, rfl⟩) _) fun ends => ?_)
  rcases ends with returned | again
  · exact returned
  · obtain ⟨ptr, listed, offers⟩ := fresh.ready.sound.offered fresh.ready.searches
    exact absurd offers (again.2.2 ptr listed listed)

theorem Ends.returns {quiet : Prop} (few : Fintype.card Thread < 2 ^ 31) (ends : Ends noexceptCtor thread quiet state) :
    (system noexceptCtor).CanReach (Own thread) (Returned thread) state :=
  ends.elim System.canReach_refl fun again => again.1.returns few

/-! ## From any state -/

/-- The end of a call of `dequeue` that is under way. -/
theorem Sound.call_ends (few : Fintype.card Thread < 2 ^ 31) (sound : Sound noexceptCtor state) (whole : state.Whole)
    (room : Room 2 state) (here : (state.pcs thread).ptr = some ptr) :
    (system noexceptCtor).CanReach (Own thread)
      (fun after => Returned thread after ∨ Ready noexceptCtor after thread ∧ after.pcs thread = state.pcs thread ∧
        (after.producers ptr).consumers thread = .outside none) state := by
  classical
  have ends : (ImplicitProducer.system noexceptCtor).CanReach (ImplicitProducer.Own thread) _ (state.producers ptr) :=
    (sound.producers ptr).call_ends (room.enqueued ptr) (Nat.lt_of_succ_lt (room.drawn ptr))
  obtain ⟨labels, middle, chosen, ran, ⟨producer, ⟨⟨result, outside⟩, enqueued, drawn⟩, made⟩⟩ :=
    canReach_consumes here ends
  have there : middle.producers ptr = producer := made ▸ State.setProducer_self
  have pcs : middle.pcs thread = state.pcs thread := made ▸ rfl
  have counts : ∀ other, (middle.producers other).enqueued = (state.producers other).enqueued ∧
      (middle.producers other).drawn ≤ (state.producers other).drawn + 1 := by
    intro other
    by_cases same : other = ptr
    · rw [same, there]
      exact ⟨enqueued, drawn⟩
    · rw [made, State.setProducer_other same]
      exact ⟨rfl, Nat.le_succ _⟩
  have near : Room 1 middle := by
    refine ⟨fun other => ?_, fun other => ?_, made ▸ room.signalled⟩
    · rw [(counts other).1]
      exact room.enqueued other
    · exact Nat.lt_of_le_of_lt (Nat.add_le_add_right (counts other).2 1) (room.drawn other)
  have held := (refines few noexceptCtor).invariant_run ⟨sound, whole⟩ ran near.young
  rw [← there] at outside
  refine System.canReach_run chosen ran ?_
  cases result with
  | some element =>
      obtain ⟨after, moved, returned⟩ := step_returns (pcs.symm ▸ here) outside
      exact canReach_onward moved (System.canReach_refl (.inl ⟨_, returned⟩))
  | none =>
      have searches := held.1.searches_again (pcs.symm ▸ here) outside
      exact System.canReach_refl (.inr ⟨⟨held.1, held.2, searches, near⟩, pcs, outside⟩)

theorem returns_of_permit (few : Fintype.card Thread < 2 ^ 31) (sound : Sound noexceptCtor state) (whole : state.Whole)
    (room : Room 2 state) (waited : state.permits thread = 1) :
    (system noexceptCtor).CanReach (Own thread) (Returned thread) state := by
  classical
  have near : Room 1 state := ⟨room.enqueued, fun ptr => Nat.lt_of_succ_lt (room.drawn ptr), room.signalled⟩
  have looking : (state.pcs thread).Looks → Ready noexceptCtor state thread := fun looks =>
    ⟨sound, whole, sound.searches looks, near⟩
  have found := sound.found thread
  cases here : state.pcs thread with
  | outside | enqueue | signal =>
      rw [State.permits, here] at waited
      cases waited
  | wait =>
      have outside : state.sema.pcs thread = .outside := by
        by_contra inside
        rw [State.permits, here, Pc.permits, if_neg inside] at waited
        cases waited
      have moved : step noexceptCtor state (onward thread) = some (state.threadAt thread .producerListTail) := by
        simp only [step, onward, advance, here, State.inSemaphore, outside]
      have room : Room 1 (state.threadAt thread .producerListTail) := ⟨near.enqueued, near.drawn, near.signalled⟩
      have held := (refines few noexceptCtor).keeps ⟨sound, whole⟩ room.young
        (show (system noexceptCtor).step state (onward thread) = _ from moved)
      have back : (state.threadAt thread .producerListTail).pcs thread = .producerListTail := State.threadAt_self
      have searches := held.1.searches (by rw [back]; trivial)
      exact canReach_onward moved (Fresh.returns few ⟨back, ⟨held.1, held.2, searches, room⟩⟩)
  | producerListTail => exact Fresh.returns few ⟨here, looking (by rw [here]; trivial)⟩
  | sizeTail scan ptr rest =>
      rw [here] at looking found
      have ready := (looking trivial).look (show Pc.Looks (.sizeHead scan ptr rest (state.producers ptr).tailIndex)
          from trivial) found
      have tailRead : step noexceptCtor state (onward thread) =
          some (state.threadAt thread (.sizeHead scan ptr rest (state.producers ptr).tailIndex)) := by
        simp only [step, onward, advance, here]
      have headRead : step noexceptCtor (state.threadAt thread
          (.sizeHead scan ptr rest (state.producers ptr).tailIndex))
          (onward thread) = some ((state.threadAt thread (.sizeHead scan ptr rest
          (state.producers ptr).tailIndex)).scanFrom thread
            (scan.see ptr (sizeApprox (state.producers ptr).tailIndex (state.producers ptr).headIndex)) rest) := by
        simp only [step, onward, advance, State.threadAt_self, State.threadAt_producers]
      refine canReach_onward tailRead (canReach_onward headRead ?_)
      exact System.canReach_trans (ready.scans few (found.see _ _) rest) fun ends => ends.returns few
  | sizeHead scan ptr rest tail =>
      rw [here] at looking found
      have headRead : step noexceptCtor state (onward thread) =
          some (state.scanFrom thread (scan.see ptr (sizeApprox tail (state.producers ptr).headIndex)) rest) := by
        simp only [step, onward, advance, here]
      refine canReach_onward headRead ?_
      exact System.canReach_trans ((looking trivial).scans few (found.see _ _) rest) fun ends => ends.returns few
  | secondListTail best =>
      rw [here] at looking
      have loaded : step noexceptCtor state (onward thread) = some (state.tryFrom thread best state.producerList) := by
        simp only [step, onward, advance, here]
      refine canReach_onward loaded ?_
      exact System.canReach_trans ((looking trivial).tries few best _) fun ends => ends.returns few
  | dequeueBest best =>
      refine System.canReach_trans (sound.call_ends few whole room (congrArg Pc.ptr here)) fun {middle} ends => ?_
      rcases ends with returned | ⟨ready, pcs, failed⟩
      · exact System.canReach_refl returned
      · have moved : step noexceptCtor middle (onward thread) =
          some (middle.threadAt thread (.secondListTail best)) := by
          simp only [step, onward, advance, pcs, here, State.inDequeue, failed]
        refine canReach_onward moved ?_
        exact System.canReach_trans (ready.tries_others few best) fun ends => ends.returns few
  | dequeueOther best ptr rest =>
      refine System.canReach_trans (sound.call_ends few whole room (congrArg Pc.ptr here)) fun {middle} ends => ?_
      rcases ends with returned | ⟨ready, pcs, failed⟩
      · exact System.canReach_refl returned
      · have moved : step noexceptCtor middle (onward thread) = some (middle.tryFrom thread best rest) := by
          simp only [step, onward, advance, pcs, here, State.inDequeue, failed]
        refine canReach_onward moved ?_
        exact System.canReach_trans (ready.tries few best _) fun ends => ends.returns few

/-- The loop in `wait_dequeue` ends: wherever the others stand, a thread that
has waited returns an element by steps of its own. -/
theorem wait_dequeue_returns (few : Fintype.card Thread < 2 ^ 31) (reached : (system noexceptCtor).Reachable state)
    (room : Room 2 state) (waited : state.permits thread = 1) :
    (system noexceptCtor).CanReach (Own thread)
      (fun after => ∃ element, after.pcs thread = .outside (some element)) state := by
  classical
  have held := (refines few noexceptCtor).invariant reached
      ⟨fun ptr => ⟨room.enqueued ptr, Nat.lt_of_add_right_lt (room.drawn ptr)⟩,
    room.signalled⟩
  exact returns_of_permit few held.1 held.2 room waited

theorem wait_dequeue_returns_sample : ∃ state : State Unit Nat Nat,
    (system true).run (.initial fun _ _ => ⟨0, fun _ => none⟩) (roundTrip.take 17) = some state ∧
      (system true).CanReach (Own ()) (fun after => ∃ element, after.pcs () = .outside (some element)) state := by
  have ran : ∃ state : State Unit Nat Nat,
      (system true).run (.initial fun _ _ => ⟨0, fun _ => none⟩) (roundTrip.take 17) = some state ∧
        state.permits () = 1 ∧
        (state.producers ()).enqueued = [7] ∧ (state.producers ()).drawn = 0 ∧ state.sema.signalled = 1 :=
    ⟨_, rfl, rfl, rfl, rfl, rfl⟩
  obtain ⟨state, ran, waited, enqueued, drawn, signalled⟩ := ran
  refine ⟨state, ran, wait_dequeue_returns (by decide) (.run (.start ⟨_, rfl⟩) ran)
    ⟨fun _ => ?_, fun _ => ?_, ?_⟩ waited⟩
  · rw [enqueued]
    decide
  · rw [drawn]
    decide
  · rw [signalled]
    decide

end Ndnperf.Cxx.BlockingConcurrentQueue

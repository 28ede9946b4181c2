import Ndnperf.Cxx.QueueInvariant

namespace Ndnperf.Cxx.BlockingConcurrentQueue

open Library Library.Transition

variable {Thread Address Element : Type} [DecidableEq Thread] {before middle after state : State Thread Address Element}
  {thread ptr : Thread} {noexceptCtor : Bool} {pc : Pc Thread Element}
  {producer : ImplicitProducer.State Thread Address Element}

/-! ## What a step leaves to the other threads -/

omit [DecidableEq Thread] in
theorem Steps.trans (first : Steps before middle thread) (second : Steps middle after thread) :
    Steps before after thread where
  pcs other apart := (second.pcs other apart).trans (first.pcs other apart)
  sema other apart := (second.sema other apart).trans (first.sema other apart)
  returned other apart := (second.returned other apart).trans (first.returned other apart)
  dequeued other apart := (second.dequeued other apart).trans (first.dequeued other apart)
  idle ptr other apart := (second.idle ptr other apart).trans (first.idle ptr other apart)
  inHand other apart := (second.inHand other apart).trans (first.inHand other apart)
  producer ptr apart := (second.producer ptr apart).trans (first.producer ptr apart)
  enqueued ptr apart := (second.enqueued ptr apart).trans (first.enqueued ptr apart)
  listed ptr apart absent := first.listed ptr apart (second.listed ptr apart absent)

@[simp] theorem State.threadAt_self : (state.threadAt thread pc).pcs thread = pc := Function.update_self ..

theorem State.threadAt_other {other : Thread} (apart : other ≠ thread) : (state.threadAt thread pc).pcs other =
    state.pcs other :=
  Function.update_of_ne apart ..

@[simp] theorem State.threadAt_producers : (state.threadAt thread pc).producers = state.producers := rfl

@[simp] theorem State.setProducer_self : (state.setProducer ptr producer).producers ptr = producer :=
  Function.update_self ..

theorem State.setProducer_other {other : Thread} (apart : other ≠ ptr) :
    (state.setProducer ptr producer).producers other = state.producers other :=
  Function.update_of_ne apart ..

theorem steps_threadAt (pc : Pc Thread Element) : Steps before (before.threadAt thread pc) thread := by
  refine ⟨fun other apart => State.threadAt_other apart, fun _ _ => rfl, fun _ _ => rfl, fun _ _ => rfl,
    fun _ _ _ => rfl, fun other apart => ?_, fun _ _ => rfl, fun _ _ => rfl, fun _ _ absent => absent⟩
  rw [State.inHand, State.inHand, State.threadAt_other apart]
  rfl

theorem steps_setProducer
    (others : ∀ other, other ≠ thread → producer.consumers other = (before.producers ptr).consumers other)
    (inHand : ∀ other, other ≠ thread → (before.pcs other).ptr = some ptr →
      producer.inHand other = (before.producers ptr).inHand other)
    (own : ptr ≠ thread →
      producer.producer = (before.producers ptr).producer ∧ producer.enqueued = (before.producers ptr).enqueued) :
    Steps before (before.setProducer ptr producer) thread := by
  refine ⟨fun _ _ => rfl, fun _ _ => rfl, fun _ _ => rfl, fun _ _ => rfl, fun second other apart => ?_,
    fun other apart => ?_,
    fun second apart => ?_, fun second apart => ?_, fun _ _ absent => absent⟩
  · by_cases same : second = ptr
    · subst same
      rw [State.setProducer_self]
      exact others other apart
    · rw [State.setProducer_other same]
  · rw [State.inHand, State.inHand]
    change ((before.pcs other).ptr.bind fun second =>
      ((before.setProducer ptr producer).producers second).inHand other) = _
    cases here : (before.pcs other).ptr with
    | none => rfl
    | some second =>
        by_cases same : second = ptr
        · subst same
          simp only [Option.bind_some, State.setProducer_self]
          exact inHand other apart here
        · simp only [Option.bind_some, State.setProducer_other same]
  · by_cases same : second = ptr
    · subst same
      rw [State.setProducer_self]
      exact (own apart).1
    · rw [State.setProducer_other same]
  · by_cases same : second = ptr
    · subst same
      rw [State.setProducer_self]
      exact (own apart).2
    · rw [State.setProducer_other same]

omit [DecidableEq Thread] in
theorem steps_sema {sema : LightweightSemaphore.State Thread}
    (pcs : ∀ other, other ≠ thread → sema.pcs other = before.sema.pcs other)
    (returned : ∀ other, other ≠ thread → sema.returned other = before.sema.returned other) :
    Steps before { before with sema } thread :=
  ⟨fun _ _ => rfl, pcs, returned, fun _ _ => rfl, fun _ _ _ => rfl, fun _ _ => rfl, fun _ _ => rfl, fun _ _ => rfl,
    fun _ _ absent => absent⟩

theorem steps_dequeued (elements : List Element) :
    Steps before { before with dequeued := Function.update before.dequeued thread elements } thread :=
  ⟨fun _ _ => rfl, fun _ _ => rfl, fun _ _ => rfl, fun _ apart => Function.update_of_ne apart .., fun _ _ _ => rfl,
  fun _ _ => rfl,
    fun _ _ => rfl, fun _ _ => rfl, fun _ _ absent => absent⟩

/-! ## `try_dequeue` -/

variable [Fintype Thread] [DecidableEq Address]

/-- A thread that holds a permit and is in no call of a producer or of the semaphore. -/
structure Searches (state : State Thread Address Element) (thread : Thread) : Prop where
  sema : state.sema.pcs thread = .outside
  idle : ∀ ptr, ∃ result, (state.producers ptr).consumers thread = .outside result
  inHand : state.inHand thread = none
  permits : state.permits thread = 1
  owes : state.owes thread = 0

/-- A place in `try_dequeue` outside the calls of `dequeue`. -/
def Pc.Looks : Pc Thread Element → Prop
  | .producerListTail | .sizeTail _ _ _ | .sizeHead _ _ _ _ | .secondListTail _ => True
  | _ => False

omit [DecidableEq Thread] [DecidableEq Address] in
theorem Sound.searches (sound : Sound noexceptCtor state) (looks : (state.pcs thread).Looks) :
    Searches state thread := by
  have calls := sound.calls thread
  have idle := fun ptr => sound.idle ptr thread
  cases here : state.pcs thread with
  | outside | enqueue | signal | wait | dequeueBest | dequeueOther =>
      rw [here] at looks
      exact looks.elim
  | producerListTail | sizeTail | sizeHead | secondListTail =>
      rw [here] at calls idle
      refine ⟨calls, fun ptr => idle ptr (Option.some_ne_none ptr).symm, ?_, ?_, ?_⟩
      · rw [State.inHand, here]
        rfl
      · rw [State.permits, here]
        rfl
      · rw [State.owes, here]

omit [DecidableEq Address] in
/-- The return from a `dequeue` that has found nothing. -/
theorem Sound.searches_again (sound : Sound noexceptCtor state) (here : (state.pcs thread).ptr = some ptr)
    (failed : (state.producers ptr).consumers thread = .outside none) : Searches state thread := by
  have calls := sound.calls thread
  have idle : ∀ other, ∃ result, (state.producers other).consumers thread = .outside result := by
    intro other
    by_cases same : other = ptr
    · exact ⟨none, same ▸ failed⟩
    · exact sound.idle other thread fun found => same (Option.some.inj (found.symm.trans here))
  have inHand : state.inHand thread = none := by
    rw [State.inHand, here, Option.bind_some, ImplicitProducer.State.inHand, failed]
    rfl
  cases place : state.pcs thread with
  | outside | enqueue | signal | wait | producerListTail | sizeTail | sizeHead | secondListTail =>
      rw [place] at here
      cases here
  | dequeueBest | dequeueOther =>
      rw [place] at calls
      refine ⟨calls, idle, inHand, ?_, ?_⟩
      · rw [State.permits, place]
        rfl
      · rw [State.owes, place]

omit [DecidableEq Thread] [DecidableEq Address] [Fintype Thread] in
theorem Searches.taken (searches : Searches state thread) : state.taken thread = state.dequeued thread := by
  rw [State.taken, searches.inHand]
  exact List.append_nil _

omit [DecidableEq Address] in
theorem Sound.look (sound : Sound noexceptCtor before) (searches : Searches before thread) (looks : pc.Looks)
    (found : pc.Found) :
    Keeps noexceptCtor before (before.threadAt thread pc) thread none := by
  have permits := sound.permits thread
  rw [searches.permits] at permits
  have calm : Calm before (before.threadAt thread pc) thread := by
    refine ⟨steps_threadAt pc, fun _ => rfl, fun _ => rfl, ?_⟩
    rw [searches.taken, State.taken, State.inHand, State.threadAt_self]
    cases pc <;> first | exact List.append_nil _ | exact looks.elim
  refine sound.of_calm calm sound.defined sound.producers sound.sema ?_ (fun ptr _ => searches.idle ptr) ?_
    (fun absent => ⟨?_, absent⟩) ?_ ?_
  · rw [State.threadAt_self]
    cases pc <;> first | exact searches.sema | exact looks.elim
  · rw [State.threadAt_self]
    exact found
  · rw [State.threadAt_self]
    intro same
    rw [same] at looks
    exact looks
  · have same : (before.threadAt thread pc).owes thread = 0 := by
      rw [State.owes, State.threadAt_self]
      cases pc <;> first | rfl | exact looks.elim
    rw [same, searches.owes]
    rfl
  · refine permits.trans ?_
    rw [State.permits, State.threadAt_self]
    cases pc <;> first | rfl | exact looks.elim

omit [DecidableEq Address] in
theorem Sound.callDequeue (sound : Sound noexceptCtor before) (searches : Searches before thread)
    (calls : pc.ptr = some ptr) (made : before.callDequeue thread ptr pc = after) :
    Keeps noexceptCtor before after thread none := by
  have permits := sound.permits thread
  rw [searches.permits] at permits
  obtain ⟨result, outside⟩ := searches.idle ptr
  have calling : Steps before (before.setProducer ptr ((before.producers ptr).consumerAt thread .loadTail)) thread := by
    refine steps_setProducer (fun other apart => ImplicitProducer.State.consumerAt_other apart)
      (fun other apart _ => ?_)
      fun _ => ⟨rfl, rfl⟩
    rw [ImplicitProducer.State.inHand, ImplicitProducer.State.consumerAt_other apart]
    rfl
  have pcs : after.pcs thread = pc := made ▸ State.threadAt_self
  have here : after.producers ptr = (before.producers ptr).consumerAt thread .loadTail := made ▸ State.setProducer_self
  have others : ∀ other, other ≠ ptr → after.producers other = before.producers other := fun other apart =>
    made ▸ State.setProducer_other apart
  have sema : after.sema = before.sema := made ▸ rfl
  have empty : after.inHand thread = none := by
    rw [State.inHand, pcs, calls, Option.bind_some, here, ImplicitProducer.State.consumerAt_inHand]
    rfl
  have calm : Calm before after thread := by
    refine ⟨made ▸ calling.trans (steps_threadAt pc), fun other => ?_, fun other => ?_, ?_⟩
    · by_cases same : other = ptr
      · rw [same, here]
        rfl
      · rw [others other same]
    · by_cases same : other = ptr
      · rw [same, here]
        rfl
      · rw [others other same]
    · rw [searches.taken, State.taken, empty]
      exact made ▸ List.append_nil _
  refine sound.of_calm calm (made ▸ sound.defined) (fun other => ?_) (made ▸ sound.sema) ?_ (fun other apart => ?_) ?_
    (fun absent => ⟨?_, ?_⟩) ?_ ?_
  · by_cases same : other = ptr
    · rw [same, here]
      exact (sound.producers ptr).dequeue outside
    · rw [others other same]
      exact sound.producers other
  · rw [pcs, sema]
    cases pc <;> first | exact searches.sema | cases calls
  · rw [pcs, calls] at apart
    rw [others other fun same => apart (congrArg some same.symm)]
    exact searches.idle other
  · rw [pcs]
    cases pc <;> trivial
  · rw [pcs]
    intro same
    rw [same] at calls
    cases calls
  · rw [← made] at absent
    exact absent
  · have same : after.owes thread = 0 := by
      rw [State.owes, pcs]
      cases pc <;> first | rfl | cases calls
    rw [same, searches.owes, sema]
  · have dequeued : after.dequeued thread = before.dequeued thread := made ▸ rfl
    rw [sema, dequeued, State.permits, pcs]
    refine permits.trans ?_
    cases pc <;> first | rfl | cases calls

omit [DecidableEq Thread] [Fintype Thread] in
theorem Scan.Found.see {scan : Scan Thread} (found : scan.Found) (ptr : Thread) (size : Nat) :
    (scan.see ptr size).Found := by
  rw [Scan.see]
  split
  · split
    · intro missing
      cases missing
    · intro missing
      have nothing := (found missing).2
      omega
  · exact found

omit [DecidableEq Address] in
theorem Sound.scanned (sound : Sound noexceptCtor before) (searches : Searches before thread) {scan : Scan Thread}
    (found : scan.Found) : Keeps noexceptCtor before (before.scanned thread scan) thread none := by
  rw [State.scanned]
  split
  · rename_i some
    split
    · exact sound.callDequeue searches rfl rfl
    · rename_i none
      exact absurd (found none).1 some.ne'
  · exact sound.look searches trivial trivial

omit [DecidableEq Address] in
theorem Sound.scanFrom (sound : Sound noexceptCtor before) (searches : Searches before thread) {scan : Scan Thread}
    (found : scan.Found) (rest : List Thread) : Keeps noexceptCtor before
    (before.scanFrom thread scan rest) thread none := by
  cases rest with
  | nil => exact sound.scanned searches found
  | cons ptr rest =>
      rw [State.scanFrom]
      split
      · exact sound.look searches trivial found
      · exact sound.scanned searches found

omit [DecidableEq Address] in
theorem Sound.tryFrom (sound : Sound noexceptCtor before) (searches : Searches before thread) (best : Thread)
    (rest : List Thread) :
    Keeps noexceptCtor before (before.tryFrom thread best rest) thread none := by
  induction rest with
  | nil => exact sound.look searches trivial trivial
  | cons ptr rest ih =>
      rw [State.tryFrom]
      split
      · exact ih
      · exact sound.callDequeue searches rfl rfl

/-! ## `dequeue` -/

/-- The element that the next step of a call of `dequeue` takes. -/
def taking (producer : ImplicitProducer.State Thread Address Element) (thread : Thread) : Option
    (Bag.Label Thread Element) :=
  match producer.consumers thread with
  | .addHead => producer.enqueued[producer.headIndex]?.map (.take thread)
  | _ => none

omit [DecidableEq Thread] [Fintype Thread] [DecidableEq Address] in
theorem taking_elsewhere (elsewhere : producer.consumers thread ≠ .addHead) : taking producer thread = none := by
  rw [taking]
  split
  · rename_i here
    exact absurd here elsewhere
  · rfl

omit [DecidableEq Thread] [DecidableEq Address] [Fintype Thread] in
theorem State.permits_of_ptr (here : (state.pcs thread).ptr = some ptr) :
    state.permits thread = 1 ∧ state.owes thread = 0 := by
  cases place : state.pcs thread with
  | outside | enqueue | signal | wait | producerListTail | sizeTail | sizeHead | secondListTail =>
      rw [place] at here
      cases here
  | dequeueBest | dequeueOther =>
      rw [State.permits, State.owes, place]
      exact ⟨rfl, rfl⟩

theorem Sound.consume (sound : Sound noexceptCtor before) (here : (before.pcs thread).ptr = some ptr)
    (young : ImplicitProducer.Young producer)
    (moved : ImplicitProducer.consume (before.producers ptr) thread = some producer)
    (made : before.setProducer ptr producer = after) :
    Keeps noexceptCtor before after thread (taking (before.producers ptr) thread) := by
  have consumed : ImplicitProducer.step noexceptCtor (before.producers ptr) (.consume thread) = some producer := moved
  have earlier : ImplicitProducer.Young (before.producers ptr) := ImplicitProducer.young_of_step consumed young
  have consumes := (sound.producers ptr).consumes earlier moved
  have steps : Steps before (before.setProducer ptr producer) thread := by
    refine steps_setProducer consumes.others (fun other apart _ => ?_) fun _ => ⟨consumes.producer, consumes.enqueued⟩
    rw [ImplicitProducer.State.inHand, ImplicitProducer.State.inHand, consumes.others other apart, consumes.enqueued]
  have pcs : after.pcs = before.pcs := made ▸ rfl
  have sema : after.sema = before.sema := made ▸ rfl
  have dequeued : after.dequeued = before.dequeued := made ▸ rfl
  have same : after.producers ptr = producer := made ▸ State.setProducer_self
  have others : ∀ other, other ≠ ptr → after.producers other = before.producers other := fun other apart =>
    made ▸ State.setProducer_other apart
  have enqueued : ∀ other, (after.producers other).enqueued = (before.producers other).enqueued := by
    intro other
    by_cases equal : other = ptr
    · rw [equal, same, consumes.enqueued]
    · rw [others other equal]
  have owes : after.owes thread = 0 := (State.permits_of_ptr (pcs ▸ here)).2
  have heads : (∑ other, (after.producers other).headIndex) + (before.producers ptr).headIndex =
      (∑ other, (before.producers other).headIndex) + (after.producers ptr).headIndex :=
    Threads.sum_of_others fun other apart => congrArg ImplicitProducer.State.headIndex (others other apart)
  have had : before.inHand thread = (before.producers ptr).inHand thread := by
    rw [State.inHand, here, Option.bind_some]
  have has : after.inHand thread = producer.inHand thread := by
    rw [State.inHand, pcs, here, Option.bind_some, same]
  have effect : Effect before after thread (taking (before.producers ptr) thread) ∧
      (∑ other, (after.producers other).headIndex) + (before.taken thread).length =
        (∑ other, (before.producers other).headIndex) + (after.taken thread).length := by
    cases consumes.claims with
    | keeps elsewhere headIndex inHand =>
        have taken : after.taken thread = before.taken thread := by
          rw [State.taken, State.taken, had, has, inHand, dequeued]
        rw [same, headIndex] at heads
        rw [taking_elsewhere elsewhere, taken]
        refine ⟨.calm ⟨made ▸ steps, enqueued, fun other => ?_, taken⟩, by omega⟩
        by_cases equal : other = ptr
        · rw [equal, same, headIndex]
        · rw [others other equal]
    | claims place next headIndex nothing inHand =>
        rename_i element
        have taken : after.taken thread = before.taken thread ++ [element] := by
          rw [State.taken, State.taken, had, has, nothing, inHand, dequeued]
          exact congrArg (· ++ [element]) (List.append_nil _).symm
        rw [same, headIndex] at heads
        rw [taking, place]
        simp only [next, Option.map_some]
        refine ⟨.takes (made ▸ steps) enqueued (fun other apart => congrArg ImplicitProducer.State.headIndex
          (others other apart)) next
          (same ▸ headIndex) taken, ?_⟩
        rw [taken, List.length_append, List.length_singleton]
        omega
  refine ⟨sound.of_steps (made ▸ steps) (made ▸ sound.defined) (fun other => ?_) (sema ▸ sound.sema) ?_
    (fun other apart => ?_) ?_
    (fun absent => ?_) ?_ effect.2 ?_, effect.1⟩
  · by_cases equal : other = ptr
    · rw [equal, same]
      exact (sound.producers ptr).consume young moved
    · rw [others other equal]
      exact sound.producers other
  · rw [pcs, sema]
    exact sound.calls thread
  · rw [pcs] at apart
    rw [others other fun equal => apart (here.trans (congrArg some equal.symm))]
    exact sound.idle other thread apart
  · rw [pcs]
    exact sound.found thread
  · rw [pcs, enqueued]
    rw [← made] at absent
    exact sound.listed thread absent
  · rw [enqueued, owes, sema, (State.permits_of_ptr here).2]
  · rw [State.permits, pcs, sema, dequeued]
    exact sound.permits thread

end Ndnperf.Cxx.BlockingConcurrentQueue

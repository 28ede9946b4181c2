import Ndnperf.Cxx.QueueSteps

namespace Ndnperf.Cxx.BlockingConcurrentQueue

open Library Library.Transition

variable {Thread Address Element : Type} [DecidableEq Thread] {before after state : State Thread Address Element}
  {thread ptr : Thread} {noexceptCtor : Bool} {pc : Pc Thread Element}
  {producer : ImplicitProducer.State Thread Address Element}
  [Fintype Thread]

/-! ## The return from `dequeue` -/

/-- The return of an element. -/
theorem Sound.bring (sound : Sound noexceptCtor before) (here : (before.pcs thread).ptr = some ptr) {element : Element}
    (found : (before.producers ptr).consumers thread = .outside (some element))
    (made : { before with
      dequeued := Function.update before.dequeued thread (before.dequeued thread ++ [element])
      }.threadAt thread (.outside (some element)) = after) : Keeps noexceptCtor before after thread none := by
  have permits := sound.permits thread
  have sema : before.sema.pcs thread = .outside := by
    have calls := sound.calls thread
    cases place : before.pcs thread with
    | outside | enqueue | signal | wait | producerListTail | sizeTail | sizeHead | secondListTail =>
        rw [place] at here
        cases here
    | dequeueBest | dequeueOther =>
        rw [place] at calls
        exact calls
  have pcs : after.pcs thread = .outside (some element) := made ▸ State.threadAt_self
  have producers : after.producers = before.producers := made ▸ rfl
  have same : after.sema = before.sema := made ▸ rfl
  have dequeued : after.dequeued thread = before.dequeued thread ++ [element] := by
    rw [← made]
    exact Function.update_self ..
  have calm : Calm before after thread := by
    refine ⟨made ▸ (steps_dequeued _).trans (steps_threadAt _), fun _ => made ▸ rfl, fun _ => made ▸ rfl, ?_⟩
    rw [State.taken, State.taken, State.inHand, State.inHand, here, Option.bind_some, ImplicitProducer.State.inHand,
      found, pcs, dequeued]
    exact List.append_nil _
  rw [(State.permits_of_ptr here).1] at permits
  refine sound.of_calm calm (made ▸ sound.defined) (producers ▸ sound.producers) (same ▸ sound.sema) ?_
    (fun other _ => ?_) ?_
    (fun absent => ⟨?_, ?_⟩) ?_ ?_
  · rw [pcs, same]
    exact sema
  · rw [producers]
    by_cases equal : other = ptr
    · exact ⟨some element, equal ▸ found⟩
    · exact sound.idle other thread fun also => equal (Option.some.inj (also.symm.trans here))
  · rw [pcs]
    trivial
  · rw [pcs]
    intro entered
    cases entered
  · rw [← made] at absent
    exact absent
  · rw [(State.permits_of_ptr here).2, State.owes, pcs, same]
  · rw [State.permits, pcs, same, dequeued, List.length_append, permits]
    rfl

variable [DecidableEq Address]

theorem Sound.inDequeue (sound : Sound noexceptCtor before) (here : (before.pcs thread).ptr = some ptr)
    {failed : State Thread Address Element}
    (failing : Searches before thread → Keeps noexceptCtor before failed thread none) (young : Young after)
    (moved : before.inDequeue thread ptr failed = some after) :
    Keeps noexceptCtor before after thread (taking (before.producers ptr) thread) := by
  simp only [State.inDequeue] at moved
  split at moved
  · rename_i element found
    rw [taking_elsewhere (by simp [found])]
    exact sound.bring here found (Option.some.inj moved)
  · rename_i found
    rw [taking_elsewhere (by simp [found])]
    exact Option.some.inj moved ▸ failing (sound.searches_again here found)
  · obtain ⟨producer, consumed, made⟩ := Option.map_eq_some_iff.mp moved
    have young := young.producers ptr
    rw [← made, State.setProducer_self] at young
    exact sound.consume here young consumed made

/-! ## The semaphore -/

omit [DecidableEq Address] in
theorem Sound.waiting (sound : Sound noexceptCtor before) (few : Fintype.card Thread < 2 ^ 31)
    (here : before.pcs thread = .wait) {sema : LightweightSemaphore.State Thread} (young : sema.signalled < 2 ^ 63)
    {spurious : Bool} (inside : before.sema.pcs thread ≠ .outside)
    (moved : LightweightSemaphore.advance before.sema thread spurious = some sema) :
    Keeps noexceptCtor before { before with sema } thread none := by
  have calls := sound.calls thread
  have permits := sound.permits thread
  have idle := fun ptr => sound.idle ptr thread
  rw [here] at calls idle
  have waits := LightweightSemaphore.waits_of_advance (sound.sema.positive thread) calls moved
  have leaves := LightweightSemaphore.leaves_of_advance moved
  have steps : Steps before { before with sema } thread :=
    steps_sema (fun other apart => (leaves other apart).1) fun other apart => (leaves other apart).2
  refine sound.of_calm ⟨steps, fun _ => rfl, fun _ => rfl, rfl⟩ sound.defined sound.producers
    (sound.sema.advance few young moved) ?_
    (fun ptr _ => idle ptr (Option.some_ne_none ptr).symm) (sound.found thread)
    (fun absent => ⟨(sound.listed thread absent).1, absent⟩) ?_ ?_
  · rw [here]
    exact waits.waits
  · simp only [State.owes, here, waits.signalled]
  · simp only [State.permits, here, Pc.permits, if_neg inside] at permits ⊢
    rw [waits.returned, permits]
    rfl

omit [DecidableEq Address] in
theorem Sound.signalling (sound : Sound noexceptCtor before) (few : Fintype.card Thread < 2 ^ 31)
    (here : before.pcs thread = .signal)
    {sema : LightweightSemaphore.State Thread} (young : sema.signalled < 2 ^ 63) {spurious : Bool}
    (moved : LightweightSemaphore.advance before.sema thread spurious = some sema) :
    Keeps noexceptCtor before { before with sema } thread none := by
  have calls := sound.calls thread
  have permits := sound.permits thread
  have idle := fun ptr => sound.idle ptr thread
  rw [here] at calls idle
  have signals := LightweightSemaphore.signals_of_advance calls moved
  have leaves := LightweightSemaphore.leaves_of_advance moved
  have steps : Steps before { before with sema } thread :=
    steps_sema (fun other apart => (leaves other apart).1) fun other apart => (leaves other apart).2
  refine sound.of_calm ⟨steps, fun _ => rfl, fun _ => rfl, rfl⟩ sound.defined sound.producers
    (sound.sema.advance few young moved) ?_
    (fun ptr _ => idle ptr (Option.some_ne_none ptr).symm) (sound.found thread)
    (fun absent => ⟨(sound.listed thread absent).1, absent⟩) ?_ ?_
  · rw [here]
    exact signals.signals
  · simp only [State.owes, here, signals.signalled]
  · simp only [State.permits, here, Pc.permits] at permits ⊢
    exact signals.returned.trans permits

omit [DecidableEq Address] in
/-- A thread that is in no call any more. -/
theorem Sound.leave (sound : Sound noexceptCtor before) (calls : before.sema.pcs thread = .outside)
    (idle : ∀ ptr, ∃ result, (before.producers ptr).consumers thread = .outside result)
    (nothing : (before.pcs thread).ptr = none)
    (permits : before.permits thread = 0) (owes : before.owes thread = 0) (result : Option Element) :
    Keeps noexceptCtor before (before.threadAt thread (.outside result)) thread none := by
  have account := sound.permits thread
  rw [permits] at account
  have calm : Calm before (before.threadAt thread (.outside result)) thread := by
    refine ⟨steps_threadAt _, fun _ => rfl, fun _ => rfl, ?_⟩
    rw [State.taken, State.taken, State.inHand, State.inHand, State.threadAt_self, nothing]
    rfl
  refine sound.of_calm calm sound.defined sound.producers sound.sema ?_ (fun ptr _ => idle ptr) ?_
    (fun absent => ⟨?_, absent⟩) ?_ ?_
  · rw [State.threadAt_self]
    exact calls
  · rw [State.threadAt_self]
    trivial
  · rw [State.threadAt_self]
    intro entered
    cases entered
  · rw [owes, State.owes, State.threadAt_self]
    rfl
  · refine account.trans ?_
    rw [State.permits, State.threadAt_self]
    rfl

omit [DecidableEq Address] in
theorem Sound.inWait (sound : Sound noexceptCtor before) (few : Fintype.card Thread < 2 ^ 31)
    (here : before.pcs thread = .wait) (young : Young after) {spurious : Bool}
    (moved : before.inSemaphore thread spurious .producerListTail = some after) :
    Keeps noexceptCtor before after thread none := by
  have idle := fun ptr => sound.idle ptr thread
  rw [here] at idle
  simp only [State.inSemaphore] at moved
  split at moved
  · rename_i calls
    have searches : Searches before thread := by
      refine ⟨calls, fun ptr => idle ptr (Option.some_ne_none ptr).symm, ?_, ?_, ?_⟩
      · rw [State.inHand, here]
        rfl
      · rw [State.permits, here, calls]
        rfl
      · rw [State.owes, here]
    exact Option.some.inj moved ▸ sound.look searches trivial trivial
  · rename_i inside
    obtain ⟨sema, advanced, same⟩ := Option.map_eq_some_iff.mp moved
    subst same
    exact sound.waiting few here young.signalled inside advanced

omit [DecidableEq Address] in
theorem Sound.inSignal (sound : Sound noexceptCtor before) (few : Fintype.card Thread < 2 ^ 31)
    (here : before.pcs thread = .signal)
    (young : Young after) {spurious : Bool} (moved : before.inSemaphore thread spurious (.outside none) = some after) :
    Keeps noexceptCtor before after thread none := by
  have idle := fun ptr => sound.idle ptr thread
  rw [here] at idle
  simp only [State.inSemaphore] at moved
  split at moved
  · rename_i calls
    refine Option.some.inj moved ▸ sound.leave calls (fun ptr => idle ptr (Option.some_ne_none ptr).symm) ?_ ?_ ?_ none
    · rw [here]
      rfl
    · rw [State.permits, here]
      rfl
    · rw [State.owes, here, calls]
      rfl
  · obtain ⟨sema, advanced, same⟩ := Option.map_eq_some_iff.mp moved
    subst same
    exact sound.signalling few here young.signalled advanced

/-! ## `enqueue` -/

/-- A thread that is in no call. -/
structure Rests (state : State Thread Address Element) (thread : Thread) : Prop where
  sema : state.sema.pcs thread = .outside
  idle : ∀ ptr, ∃ result, (state.producers ptr).consumers thread = .outside result
  ptr : (state.pcs thread).ptr = none
  permits : state.permits thread = 0

omit [DecidableEq Thread] [DecidableEq Address] in
theorem Sound.rests (sound : Sound noexceptCtor state) {result : Option Element}
    (here : state.pcs thread = .outside result) :
    Rests state thread ∧ state.owes thread = 0 := by
  have calls := sound.calls thread
  have idle := fun ptr => sound.idle ptr thread
  rw [here] at calls idle
  refine ⟨⟨calls, fun ptr => idle ptr (Option.some_ne_none ptr).symm, ?_, ?_⟩, ?_⟩
  · rw [here]
    rfl
  · rw [State.permits, here]
    rfl
  · rw [State.owes, here]

omit [DecidableEq Thread] [DecidableEq Address] in
theorem Sound.rests_enqueue (sound : Sound noexceptCtor state) (here : state.pcs thread = .enqueue) :
    Rests state thread := by
  have calls := sound.calls thread
  have idle := fun ptr => sound.idle ptr thread
  rw [here] at calls idle
  refine ⟨calls, fun ptr => idle ptr (Option.some_ne_none ptr).symm, ?_, ?_⟩
  · rw [here]
    rfl
  · rw [State.permits, here]
    rfl

/-- The element that the next step of a call of `enqueue` puts in. -/
def putting (producer : ImplicitProducer.State Thread Address Element) : Option (Bag.Label Thread Element) :=
  match producer.producer with
  | .storeTailIndex element => some (.put element)
  | _ => none

omit [DecidableEq Address] in
/-- A step of the thread's own producer. -/
theorem Sound.own (sound : Sound noexceptCtor before) (rests : Rests before thread) {list : List Thread}
    (member : thread ∈ list) (listed : ∀ ptr, ptr ≠ thread → ptr ∉ list → ptr ∉ before.producerList)
    (valid : ImplicitProducer.Sound noexceptCtor producer)
    (consumers : producer.consumers = (before.producers thread).consumers)
    (headIndex : producer.headIndex = (before.producers thread).headIndex) (offered : List Element)
    (enqueued : producer.enqueued = (before.producers thread).enqueued ++ offered)
    (owes : before.owes thread + offered.length = producer.producer.succeeded)
    (made : ({ before with producerList := list }.setProducer thread producer).threadAt thread .enqueue = after) :
    Sound noexceptCtor after ∧ Steps before after thread ∧ after.producers thread = producer ∧
      (∀ ptr, (after.producers ptr).headIndex = (before.producers ptr).headIndex) ∧ after.taken thread =
      before.taken thread := by
  have listing : Steps before { before with producerList := list } thread :=
    ⟨fun _ _ => rfl, fun _ _ => rfl, fun _ _ => rfl, fun _ _ => rfl, fun _ _ _ => rfl, fun _ _ => rfl,
    fun _ _ => rfl, fun _ _ => rfl,
      listed⟩
  have producing : Steps { before with producerList := list }
      ({ before with producerList := list }.setProducer thread producer) thread := by
    refine steps_setProducer (fun other _ => congrFun consumers other) (fun other _ _ => ?_) fun apart =>
      absurd rfl apart
    rw [ImplicitProducer.State.inHand, consumers, enqueued]
    exact (sound.producers thread).inHand_append offered other
  have steps : Steps before after thread := made ▸ (listing.trans producing).trans (steps_threadAt _)
  have pcs : after.pcs thread = .enqueue := made ▸ State.threadAt_self
  have sema : after.sema = before.sema := made ▸ rfl
  have dequeued : after.dequeued thread = before.dequeued thread := made ▸ rfl
  have same : after.producers thread = producer := made ▸ State.setProducer_self
  have others : ∀ ptr, ptr ≠ thread → after.producers ptr = before.producers ptr := fun ptr apart =>
    made ▸ State.setProducer_other apart
  have heads : ∀ ptr, (after.producers ptr).headIndex = (before.producers ptr).headIndex := by
    intro ptr
    by_cases here : ptr = thread
    · rw [here, same, headIndex]
    · rw [others ptr here]
  have taken : after.taken thread = before.taken thread := by
    rw [State.taken, State.taken, State.inHand, State.inHand, pcs, rests.ptr, dequeued]
    rfl
  have account := sound.permits thread
  rw [rests.permits] at account
  refine ⟨?_, steps, same, heads, taken⟩
  refine sound.of_steps steps (made ▸ sound.defined) (fun ptr => ?_) (made ▸ sound.sema) ?_ (fun ptr _ => ?_) ?_
    (fun absent => ?_) ?_ ?_ ?_
  · by_cases here : ptr = thread
    · rw [here, same]
      exact valid
    · rw [others ptr here]
      exact sound.producers ptr
  · rw [pcs, sema]
    exact rests.sema
  · by_cases here : ptr = thread
    · rw [here, same, consumers]
      exact rests.idle thread
    · rw [others ptr here]
      exact rests.idle ptr
  · rw [pcs]
    trivial
  · have now : after.producerList = list := made ▸ rfl
    rw [now] at absent
    exact absurd member absent
  · have owed : after.owes thread = producer.producer.succeeded := by
      rw [State.owes, pcs, same]
    rw [owed, same, enqueued, List.length_append, ← owes, sema]
    omega
  · rw [taken, Finset.sum_congr rfl fun ptr _ => heads ptr]
  · rw [State.permits, pcs, dequeued, sema]
    exact account

theorem Sound.callEnqueue (sound : Sound noexceptCtor before) (rests : Rests before thread)
    (owes : before.owes thread = 0) {list : List Thread} (member : thread ∈ list)
    (listed : ∀ ptr, ptr ≠ thread → ptr ∉ list → ptr ∉ before.producerList) {element : Element}
    (moved : BlockingConcurrentQueue.callEnqueue noexceptCtor { before with producerList := list } thread element =
      some after) :
    Keeps noexceptCtor before after thread none := by
  obtain ⟨producer, called, made⟩ := Option.map_eq_some_iff.mp moved
  simp only [ImplicitProducer.step] at called
  split at called
  · rename_i result here
    have valid := (sound.producers thread).enqueue here element
    cases Option.some.inj called
    have fresh : before.owes thread + ([] : List Element).length = ImplicitProducer.ProducerPc.succeeded
        (if (before.producers thread).tailIndex % ImplicitProducer.blockSize = 0 then
          (.loadHead element : ImplicitProducer.ProducerPc Address Element) else .construct element) := by
      rw [owes]
      split <;> rfl
    obtain ⟨sound, steps, same, heads, taken⟩ := sound.own rests member listed valid rfl rfl []
      (List.append_nil _).symm fresh made
    refine ⟨sound, .calm ⟨steps, fun ptr => ?_, heads, taken⟩⟩
    by_cases own : ptr = thread
    · rw [own, same]
      rfl
    · exact steps.enqueued ptr own
  · cases called

theorem Sound.produce (sound : Sound noexceptCtor before) (here : before.pcs thread = .enqueue) (young : Young after)
    {outcome : ImplicitProducer.Outcome Address} (inside : (before.producers thread).producer.succeeded = 0)
    (moved : before.produce noexceptCtor thread outcome = some after) :
    Keeps noexceptCtor before after thread (putting (before.producers thread)) := by
  obtain ⟨producer, produced, made⟩ := Option.map_eq_some_iff.mp moved
  have young := young.producers thread
  rw [← made, State.setProducer_self] at young
  have offers := ImplicitProducer.offers_of_produce produced
  have member : thread ∈ before.producerList :=
    Classical.byContradiction fun absent => (sound.listed thread absent).1 here
  have still : (before.setProducer thread producer).threadAt thread .enqueue = before.setProducer thread producer :=
    congrArg (fun pcs => { before.setProducer thread producer with pcs })
      (here ▸ Function.update_eq_self thread before.pcs)
  have owes : before.owes thread + (before.producers thread).producer.offered.length = producer.producer.succeeded := by
    rw [State.owes, here, ImplicitProducer.succeeded_of_produce produced]
    exact inside.symm ▸ Nat.zero_add _
  obtain ⟨sound, steps, same, heads, taken⟩ := sound.own (sound.rests_enqueue here) member (fun _ _ absent => absent)
    ((sound.producers thread).produce young produced) offers.consumers offers.headIndex _ offers.enqueued owes
    (still.trans made)
  refine ⟨sound, ?_⟩
  have enqueued := offers.enqueued
  rw [← same] at enqueued
  rw [putting]
  cases place : (before.producers thread).producer with
  | storeTailIndex element =>
      rw [place] at enqueued
      exact .puts steps enqueued heads taken
  | outside | loadHead | loadEntry | newBlockIndex | storeKey | storeTail | requisitionBlock | constructFirst
  | storeValue | construct | rewind | clearEntry | addToFreeList =>
      rw [place] at enqueued
      refine .calm ⟨steps, fun ptr => ?_, heads, taken⟩
      by_cases own : ptr = thread
      · rw [own, enqueued]
        exact List.append_nil _
      · exact steps.enqueued ptr own

omit [DecidableEq Address] in
/-- A call of the semaphore. -/
theorem Sound.callSemaphore (sound : Sound noexceptCtor before) (few : Fintype.card Thread < 2 ^ 31)
    (bounded : before.sema.signalled < 2 ^ 63) (rests : Rests before thread) {call : LightweightSemaphore.Call}
    (calls : pc.Calls call.pc) (nothing : pc.ptr = none) (found : pc.Found) (apart : pc ≠ .enqueue)
    (fresh : pc.permits call.pc = 0)
    (made : { before with sema := before.sema.threadAt thread call.pc }.threadAt thread pc = after)
    (owes : after.owes thread = before.owes thread) : Keeps noexceptCtor before after thread none := by
  have calling : Steps before { before with sema := before.sema.threadAt thread call.pc } thread :=
    steps_sema (fun other apart => Function.update_of_ne apart ..) fun _ _ => rfl
  have account := sound.permits thread
  rw [rests.permits] at account
  have pcs : after.pcs thread = pc := made ▸ State.threadAt_self
  have sema : after.sema = before.sema.threadAt thread call.pc := made ▸ rfl
  have here : after.sema.pcs thread = call.pc := by
    rw [sema]
    exact Function.update_self ..
  have producers : after.producers = before.producers := made ▸ rfl
  have dequeued : after.dequeued thread = before.dequeued thread := made ▸ rfl
  have calm : Calm before after thread := by
    refine ⟨made ▸ calling.trans (steps_threadAt _), fun _ => made ▸ rfl, fun _ => made ▸ rfl, ?_⟩
    rw [State.taken, State.taken, State.inHand, State.inHand, pcs, nothing, rests.ptr, dequeued]
    rfl
  refine sound.of_calm calm (made ▸ sound.defined) ?_ ?_ ?_ ?_ ?_ (fun absent => ⟨?_, ?_⟩) ?_ ?_
  · rw [producers]
    exact sound.producers
  · rw [sema]
    exact sound.sema.call few bounded rests.sema call
  · rw [pcs, here]
    exact calls
  · rw [producers]
    exact fun ptr _ => rests.idle ptr
  · rw [pcs]
    exact found
  · rw [pcs]
    exact apart
  · rw [← made] at absent
    exact absent
  · rw [owes, sema]
    rfl
  · rw [State.permits, pcs, here, fresh, dequeued, sema]
    exact account

theorem Sound.inEnqueue (sound : Sound noexceptCtor before) (few : Fintype.card Thread < 2 ^ 31)
    (here : before.pcs thread = .enqueue)
    (young : Young after) {outcome : ImplicitProducer.Outcome Address}
    (moved : before.inEnqueue noexceptCtor thread outcome = some after) :
    Keeps noexceptCtor before after thread (putting (before.producers thread)) := by
  have rests := sound.rests_enqueue here
  simp only [State.inEnqueue] at moved
  split at moved
  · rename_i returned
    have made := Option.some.inj moved
    have bounded : before.sema.signalled < 2 ^ 63 := by
      have bounded := young.signalled
      rw [← made] at bounded
      exact bounded
    rw [putting, returned]
    refine sound.callSemaphore few bounded rests ?_ rfl ?_ ?_ rfl made ?_
    · exact rfl
    · trivial
    · intro same
      cases same
    · rw [State.owes, State.owes, here, returned, ← made, State.threadAt_self]
      simp [State.threadAt, LightweightSemaphore.State.threadAt, LightweightSemaphore.Call.pc,
        LightweightSemaphore.Pc.signals,
        ImplicitProducer.ProducerPc.succeeded]
  · rename_i returned
    rw [putting, returned]
    refine Option.some.inj moved ▸ sound.leave rests.sema rests.idle rests.ptr rests.permits ?_ none
    rw [State.owes, here, returned]
    rfl
  · rename_i inside
    split at moved
    · exact sound.produce here young (by rw [inside]; rfl) moved
    · cases moved
  · rename_i unreturned _ _
    refine sound.produce here young ?_ moved
    cases place : (before.producers thread).producer with
    | outside result =>
        cases result with
        | true => exact absurd place unreturned
        | false => rfl
    | loadHead | loadEntry | newBlockIndex | storeKey | storeTail | requisitionBlock | constructFirst
    | storeValue | construct | storeTailIndex | rewind | clearEntry | addToFreeList => rfl

/-! ## Every step -/

/-- Elements are put in when a tail is stored, and taken when a head is moved on. -/
def visible (state : State Thread Address Element) : Label Thread Address Element → Option (Bag.Label Thread Element)
  | .advance thread _ _ =>
      match state.pcs thread with
      | .enqueue => putting (state.producers thread)
      | .dequeueBest ptr | .dequeueOther _ ptr _ => taking (state.producers ptr) thread
      | _ => none
  | _ => none

theorem Sound.advance (sound : Sound noexceptCtor before) (few : Fintype.card Thread < 2 ^ 31) (young : Young after)
    {outcome : ImplicitProducer.Outcome Address} {spurious : Bool}
    (moved : BlockingConcurrentQueue.advance noexceptCtor before thread outcome spurious = some after) :
    Keeps noexceptCtor before after thread (visible before (.advance thread outcome spurious)) := by
  have looking : (before.pcs thread).Looks → Searches before thread := sound.searches
  have found := sound.found thread
  cases here : before.pcs thread with
  | outside => simp only [BlockingConcurrentQueue.advance, here, reduceCtorEq] at moved
  | enqueue =>
      simp only [BlockingConcurrentQueue.advance, here] at moved
      simp only [visible, here]
      exact sound.inEnqueue few here young moved
  | signal =>
      simp only [BlockingConcurrentQueue.advance, here] at moved
      simp only [visible, here]
      exact sound.inSignal few here young moved
  | wait =>
      simp only [BlockingConcurrentQueue.advance, here] at moved
      simp only [visible, here]
      exact sound.inWait few here young moved
  | producerListTail =>
      rw [here] at looking
      simp only [BlockingConcurrentQueue.advance, here, Option.some.injEq] at moved
      simp only [visible, here]
      exact moved ▸ sound.scanFrom (looking trivial) (fun _ => ⟨rfl, rfl⟩) _
  | sizeTail scan ptr rest =>
      rw [here] at looking found
      simp only [BlockingConcurrentQueue.advance, here, Option.some.injEq] at moved
      simp only [visible, here]
      exact moved ▸ sound.look (looking trivial) trivial found
  | sizeHead scan ptr rest tail =>
      rw [here] at looking found
      simp only [BlockingConcurrentQueue.advance, here, Option.some.injEq] at moved
      simp only [visible, here]
      exact moved ▸ sound.scanFrom (looking trivial) (found.see _ _) rest
  | dequeueBest best =>
      simp only [BlockingConcurrentQueue.advance, here] at moved
      simp only [visible, here]
      refine sound.inDequeue (congrArg Pc.ptr here) (fun searches => ?_) young moved
      exact sound.look searches trivial trivial
  | secondListTail best =>
      rw [here] at looking
      simp only [BlockingConcurrentQueue.advance, here, Option.some.injEq] at moved
      simp only [visible, here]
      exact moved ▸ sound.tryFrom (looking trivial) best _
  | dequeueOther best ptr rest =>
      simp only [BlockingConcurrentQueue.advance, here] at moved
      simp only [visible, here]
      exact sound.inDequeue (congrArg Pc.ptr here) (fun searches => sound.tryFrom searches best rest) young moved

/-- The thread that makes a step. -/
def Label.mover : Label Thread Address Element → Thread
  | .enqueue thread _ _ | .waitDequeue thread | .advance thread _ _ => thread

theorem Sound.step (sound : Sound noexceptCtor before) (few : Fintype.card Thread < 2 ^ 31) (young : Young after)
    {label : Label Thread Address Element}
    (moved : BlockingConcurrentQueue.step noexceptCtor before label = some after) :
    Keeps noexceptCtor before after label.mover (visible before label) := by
  cases label with
  | enqueue thread element created =>
      simp only [BlockingConcurrentQueue.step] at moved
      split at moved
      · rename_i here
        obtain ⟨rests, owes⟩ := sound.rests here
        split at moved
        · rename_i member
          exact sound.callEnqueue rests owes member (fun _ _ absent => absent) moved
        · split at moved
          · exact sound.callEnqueue rests owes List.mem_cons_self
              (fun _ _ absent member => absent (List.mem_cons_of_mem _ member)) moved
          · exact Option.some.inj moved ▸ sound.leave rests.sema rests.idle rests.ptr rests.permits owes none
      · cases moved
  | waitDequeue thread =>
      simp only [BlockingConcurrentQueue.step] at moved
      split at moved
      · rename_i here
        obtain ⟨rests, owes⟩ := sound.rests here
        have made := Option.some.inj moved
        have bounded : before.sema.signalled < 2 ^ 63 := by
          have bounded := young.signalled
          rw [← made] at bounded
          exact bounded
        refine sound.callSemaphore few bounded rests ?_ rfl ?_ ?_ rfl made ?_
        · exact rfl
        · trivial
        · intro same
          cases same
        · change after.owes thread = before.owes thread
          rw [owes, State.owes, ← made, State.threadAt_self]
      · cases moved
  | advance thread outcome spurious => exact sound.advance few young moved

end Ndnperf.Cxx.BlockingConcurrentQueue

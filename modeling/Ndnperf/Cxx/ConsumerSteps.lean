import Ndnperf.Cxx.ProducerInvariant

namespace Ndnperf.Cxx.ImplicitProducer

open Library.Word Library.Transition Library.Threads Library.Ownership

variable {Thread Address Element : Type} [DecidableEq Thread]
  {before after : State Thread Address Element} {thread : Thread} {pc : ConsumerPc Address Element}
  {noexceptCtor : Bool}

theorem circularLessThan_iff {a b : Nat} (small : a < 2 ^ 63) (bounded : b < 2 ^ 63) :
    circularLessThan a b ↔ a < b := by
  simp only [circularLessThan, uint64]
  omega

theorem uint64_sub {a b : Nat} (ordered : b ≤ a) (bounded : a < 2 ^ 64) : uint64 ((a : Int) - b) = a - b := by
  rw [uint64_of_bounds (by omega) (by omega)]
  omega

theorem uint64_succ {value : Nat} (bounded : value < 2 ^ 63) : uint64 (value + 1 : Nat) = value + 1 := by
  rw [uint64_of_bounds (by omega) (by omega)]
  omega

theorem State.consumerAt_self : (before.consumerAt thread pc).consumers thread = pc := Function.update_self ..

theorem State.consumerAt_other {other : Thread} (different : other ≠ thread) :
    (before.consumerAt thread pc).consumers other = before.consumers other := Function.update_of_ne different ..

/-- A view of where the threads are that the thread keeps when it moves. -/
theorem update_view {View : Type} (view : ConsumerPc Address Element → View)
    {consumers : Thread → ConsumerPc Address Element} (same : view pc = view (consumers thread)) (other : Thread) :
    view (Function.update consumers thread pc other) = view (consumers other) := by
  by_cases here : other = thread
  · rw [here, Function.update_self, same]
  · rw [Function.update_of_ne here]

theorem ConsumerPc.uncounted_of_claimed {index : Nat} (claimed : pc.claimed = some index) :
    pc.uncounted = some index := by
  cases pc <;> cases claimed <;> rfl

theorem ConsumerPc.place_of_uncounted {index : Nat} (uncounted : pc.uncounted = some index) :
    pc.place = .claimed index := by
  cases pc <;> cases uncounted <;> rfl

/-! ## Tickets and claims -/

section Counters

variable [Fintype Thread] {image : Library.Tickets.State Thread}

omit [DecidableEq Thread] in
theorem Counted.head_le (counted : Counted before image) : before.headIndex ≤ before.enqueued.length := by
  rw [counted.headIndex, ← counted.tail]
  exact counted.sound.head_le

omit [DecidableEq Thread] in
theorem Counted.claimed_lt (counted : Counted before image) {index : Nat}
    (here : (before.consumers thread).place = .claimed index) : index < before.headIndex := by
  rw [counted.headIndex]
  exact counted.sound.claimed_lt ((counted.places thread).trans here)

omit [DecidableEq Thread] in
theorem Counted.claimed_inj (counted : Counted before image) {other : Thread} {index : Nat}
    (here : (before.consumers thread).place = .claimed index)
    (there : (before.consumers other).place = .claimed index) :
    thread = other :=
  counted.sound.claimed_inj ((counted.places thread).trans here) ((counted.places other).trans there)

omit [Fintype Thread] in
theorem places_update {places : Thread → Library.Tickets.Place} {consumers : Thread → ConsumerPc Address Element}
    (same : ∀ other, places other = (consumers other).place) (pc : ConsumerPc Address Element) (other : Thread) :
    Function.update places thread pc.place other = (Function.update consumers thread pc other).place := by
  by_cases here : other = thread
  · rw [here, Function.update_self, Function.update_self]
  · rw [Function.update_of_ne here, Function.update_of_ne here]
    exact same other

theorem Counted.consumerAt (counted : Counted before image) (thread : Thread) (pc : ConsumerPc Address Element)
    (sound : Library.Tickets.Sound (image.threadAt thread pc.place)) :
    Counted (before.consumerAt thread pc) (image.threadAt thread pc.place) :=
  ⟨sound, counted.tail, counted.drawn, counted.tailIndex, counted.headIndex, counted.dequeueOptimisticCount,
    counted.dequeueOvercommit, places_update counted.places pc⟩

/-- Where a thread stays in drawing tickets and claiming places. -/
theorem Counted.stays (counted : Counted before image) (place : pc.place = (before.consumers thread).place) :
    Counted (before.consumerAt thread pc) image := by
  have same : image.threadAt thread pc.place = image := by
    rw [place, ← counted.places, Library.Tickets.State.threadAt, Function.update_eq_self]
  have moved := counted.consumerAt thread pc (same.symm ▸ counted.sound)
  rwa [same] at moved

theorem Counted.advance (counted : Counted before image)
    (advanced : Library.Tickets.advance image thread = some (image.threadAt thread pc.place)) :
    Counted (before.consumerAt thread pc) (image.threadAt thread pc.place) :=
  counted.consumerAt thread pc (counted.sound.advance advanced)

theorem Counted.loadTail (counted : Counted before image) (here : before.consumers thread = .loadTail) :
    ∃ image, Counted (before.consumerAt thread (.loadOvercommit before.tailIndex)) image := by
  have place := counted.places thread
  rw [here] at place
  refine ⟨_, counted.advance ?_⟩
  simp only [Library.Tickets.advance, place, ConsumerPc.place, counted.tailIndex, counted.tail]

theorem Counted.loadOvercommit (counted : Counted before image) {tail : Nat}
    (here : before.consumers thread = .loadOvercommit tail) :
    ∃ image, Counted (before.consumerAt thread (.loadOptimistic tail before.dequeueOvercommit)) image := by
  have place := counted.places thread
  rw [here] at place
  refine ⟨_, counted.advance ?_⟩
  simp only [Library.Tickets.advance, place, ConsumerPc.place, counted.dequeueOvercommit]

theorem Counted.loadOptimistic (counted : Counted before image) (young : Young before) {tail overcommit : Nat}
    (here : before.consumers thread = .loadOptimistic tail overcommit) :
    ∃ image, Counted (before.consumerAt thread
      (if circularLessThan (uint64 ((before.dequeueOptimisticCount : Int) - overcommit)) tail then
        .addOptimistic overcommit
        else .outside none)) image := by
  have place := counted.places thread
  have knows := counted.sound.knows thread
  rw [here] at place
  rw [place] at knows
  obtain ⟨seen, returned⟩ := knows
  have drawn := counted.sound.returned_le
  have small := young.2
  have few := young.1
  rw [counted.drawn] at drawn
  rw [counted.tail] at seen
  have fewer : circularLessThan (uint64 ((before.dequeueOptimisticCount : Int) - overcommit)) tail ↔
      image.drawn - overcommit < tail := by
    rw [counted.dequeueOptimisticCount, counted.drawn, uint64_sub (by omega) (by omega),
      circularLessThan_iff (by omega) (by omega)]
  refine ⟨_, counted.advance ?_⟩
  simp only [Library.Tickets.advance, place, ConsumerPc.place, fewer]
  split <;> rfl

theorem Counted.addOptimistic (counted : Counted before image) (young : before.drawn < 2 ^ 62) {overcommit : Nat}
    (here : before.consumers thread = .addOptimistic overcommit) :
    ∃ image, Counted ({ before with
      dequeueOptimisticCount := uint64 (before.dequeueOptimisticCount + 1 : Nat)
      drawn := before.drawn + 1 }.consumerAt thread (.compare overcommit before.dequeueOptimisticCount)) image := by
  have place := (counted.places thread).trans (congrArg ConsumerPc.place here)
  have optimistic : before.dequeueOptimisticCount = image.drawn :=
    counted.dequeueOptimisticCount.trans counted.drawn.symm
  refine ⟨_, counted.sound.draw place, counted.tail, congrArg (· + 1) counted.drawn, counted.tailIndex,
    counted.headIndex, ?_, counted.dequeueOvercommit, ?_⟩
  · change uint64 (before.dequeueOptimisticCount + 1 : Nat) = before.drawn + 1
    rw [counted.dequeueOptimisticCount, uint64_succ (by omega)]
  · rw [optimistic]
    exact places_update counted.places (.compare overcommit image.drawn)

theorem Counted.compare (counted : Counted before image) (young : Young before) {overcommit myDequeueCount : Nat}
    (here : before.consumers thread = .compare overcommit myDequeueCount) :
    ∃ image, Counted (before.consumerAt thread
      (if circularLessThan (uint64 ((myDequeueCount : Int) - overcommit)) before.tailIndex then .addHead
        else .addOvercommit)) image := by
  have place := (counted.places thread).trans (congrArg ConsumerPc.place here)
  have knows := counted.sound.knows thread
  rw [place] at knows
  obtain ⟨drawn, _, _, returned⟩ := knows
  have ticket := Nat.le_trans returned (Library.Tickets.below_le image.refused myDequeueCount)
  have small := young.2
  have few := young.1
  rw [counted.drawn] at drawn
  have fewer : circularLessThan (uint64 ((myDequeueCount : Int) - overcommit)) before.tailIndex ↔
      myDequeueCount - overcommit < image.tail := by
    rw [counted.tailIndex, counted.tail, uint64_sub ticket (by omega), circularLessThan_iff (by omega) (by omega)]
  simp only [fewer]
  split
  · rename_i enough
    exact ⟨_, counted.sound.admit place enough, counted.tail, counted.drawn, counted.tailIndex, counted.headIndex,
      counted.dequeueOptimisticCount, counted.dequeueOvercommit, places_update counted.places .addHead⟩
  · exact ⟨_, counted.sound.refuse place, counted.tail, counted.drawn, counted.tailIndex, counted.headIndex,
      counted.dequeueOptimisticCount, counted.dequeueOvercommit, places_update counted.places .addOvercommit⟩

theorem Counted.addOvercommit (counted : Counted before image) (young : before.drawn < 2 ^ 62)
    (here : before.consumers thread = .addOvercommit) :
    ∃ image, Counted ({ before with dequeueOvercommit := uint64 (before.dequeueOvercommit + 1 : Nat) }.consumerAt thread
      (.outside none)) image := by
  have place := (counted.places thread).trans (congrArg ConsumerPc.place here)
  have returned := counted.sound.returned_le
  rw [counted.drawn] at returned
  refine ⟨_, counted.sound.handBack place, counted.tail, counted.drawn, counted.tailIndex, counted.headIndex,
    counted.dequeueOptimisticCount, ?_, places_update counted.places (.outside none)⟩
  change uint64 (before.dequeueOvercommit + 1 : Nat) = image.returned + 1
  rw [counted.dequeueOvercommit, uint64_succ (by omega)]

theorem Counted.addHead (counted : Counted before image) (young : before.enqueued.length < 2 ^ 62)
    (here : before.consumers thread = .addHead) :
    ∃ image, Counted ({ before with headIndex := uint64 (before.headIndex + 1 : Nat) }.consumerAt thread
      (.loadBlockIndex before.headIndex)) image := by
  have place := (counted.places thread).trans (congrArg ConsumerPc.place here)
  have head := counted.head_le
  refine ⟨_, counted.sound.claim place, counted.tail, counted.drawn, counted.tailIndex, ?_,
    counted.dequeueOptimisticCount, counted.dequeueOvercommit, ?_⟩
  · change uint64 (before.headIndex + 1 : Nat) = image.head + 1
    rw [uint64_succ (by omega), counted.headIndex]
  · rw [counted.headIndex]
    exact places_update counted.places (.loadBlockIndex image.head)

theorem Counted.enter (counted : Counted before image) {result : Option Element}
    (here : before.consumers thread = .outside result) :
    ∃ image, Counted (before.consumerAt thread .loadTail) image := by
  have place := (counted.places thread).trans (congrArg ConsumerPc.place here)
  exact ⟨_, counted.consumerAt thread .loadTail
    (counted.sound.threadAt (by simp [place, ConsumerPc.place, Library.Tickets.Place.Decides])
    (by simp [ConsumerPc.place, Library.Tickets.Place.Free]) trivial)⟩

theorem Counted.leave (counted : Counted before image) {index : Nat}
    (here : (before.consumers thread).place = .claimed index) (result : Option Element) :
    ∃ image, Counted (before.consumerAt thread (.outside result)) image := by
  have place := (counted.places thread).trans here
  exact ⟨_, counted.consumerAt thread (.outside result)
    (counted.sound.threadAt (by simp [place, Library.Tickets.Place.Decides])
    (by simp [ConsumerPc.place, Library.Tickets.Place.Free]) trivial)⟩

end Counters

/-! ## What the invariant says about blocks -/

theorem ProducerPc.Filled.bounds {pc : ProducerPc Address Element} {started enqueued : Nat}
    (filled : pc.Filled noexceptCtor started enqueued) :
    enqueued ≤ started * blockSize ∧ started * blockSize ≤ enqueued + blockSize := by
  cases pc <;> simp only [ProducerPc.Filled] at filled <;> omega

omit [DecidableEq Thread] in
theorem State.home_of_live {block : Nat} {address : Address} (found : before.live block = some address)
    (started : block < before.started.length) : before.home block = some address := by
  rw [State.home, if_neg (Nat.ne_of_lt started)]
  exact found

section Steps

variable [Fintype Thread]

omit [DecidableEq Thread] in
theorem Sound.home (sound : Sound noexceptCtor before) {block : Nat} {address : Address}
    (found : before.live block = some address) : before.home block = some address :=
  State.home_of_live found (sound.indexed.live_lt block address found)

omit [DecidableEq Thread] in
/-- The next element to be claimed is in a block that is in the index. -/
theorem Sound.live_head (sound : Sound noexceptCtor before) (offered : before.headIndex < before.enqueued.length) :
    ∃ address, before.live (before.headIndex / blockSize) = some address := by
  have bounds := sound.filled.bounds
  simp only [blockSize] at bounds
  have started : before.headIndex / blockSize < before.started.length := by
    simp only [blockSize]
    omega
  have present : before.headIndex / blockSize ∉ before.retired := by
    intro member
    have behind := sound.retired _ member
    simp only [blockSize] at behind
    omega
  rw [State.live, if_neg present, List.getElem?_eq_getElem started]
  exact ⟨_, rfl⟩

omit [Fintype Thread] in
theorem State.taken_update (same : pc.claimed = (before.consumers thread).claimed) (index : Nat) :
    (before.consumerAt thread pc).Taken index ↔ before.Taken index :=
  and_congr_right fun _ => forall_congr' fun other => by
    rw [← update_view ConsumerPc.claimed same other]
    rfl

omit [Fintype Thread] [DecidableEq Thread] in
theorem within_iff {index : Nat} (uncounted : pc.uncounted = some index) (block : Nat) :
    pc.Within block ↔ index / blockSize = block := by
  rw [ConsumerPc.Within, uncounted]
  exact Option.some_inj

omit [Fintype Thread] [DecidableEq Thread] in
theorem not_within (counted : pc.uncounted = none) (block : Nat) : ¬pc.Within block := by
  rw [ConsumerPc.Within, counted]
  exact (Option.some_ne_none block).symm

theorem threadsAt_within {consumers : Thread → ConsumerPc Address Element}
    (same : pc.uncounted = (consumers thread).uncounted) (block : Nat) :
    threadsAt (ConsumerPc.Within block) (Function.update consumers thread pc) =
      threadsAt (ConsumerPc.Within block) consumers := by
  have counts := threadsAt_update (ConsumerPc.Within block) consumers thread pc
  have kept : ConsumerPc.Within block pc ↔ ConsumerPc.Within block (consumers thread) := by
    rw [ConsumerPc.Within, ConsumerPc.Within, same]
  by_cases within : ConsumerPc.Within block (consumers thread)
  · rw [if_pos within, if_pos (kept.mpr within)] at counts
    omega
  · rw [if_neg within, if_neg (within ∘ kept.mp)] at counts
    omega

omit [Fintype Thread] in
theorem State.owned_update :
    (before.consumerAt thread pc).owned = Function.update before.owned (.inr thread) pc.block := by
  funext owner
  cases owner with
  | inl block => exact (Function.update_of_ne (by simp) _ _).symm
  | inr other =>
      by_cases here : other = thread
      · rw [here, Function.update_self]
        exact congrArg ConsumerPc.block (Function.update_self ..)
      · rw [Function.update_of_ne (by simpa using here)]
        exact congrArg ConsumerPc.block (Function.update_of_ne here ..)

omit [Fintype Thread] in
theorem alone_update {consumers : Thread → ConsumerPc Address Element}
    (alone : ∀ thread other block, (consumers thread).clearing = some block → (consumers other).clearing = some block →
      thread = other) (clearing : pc.clearing = none) (first second : Thread) (block : Nat)
    (here : (Function.update consumers thread pc first).clearing = some block)
    (there : (Function.update consumers thread pc second).clearing = some block) : first = second := by
  have moved : ∀ {other}, (Function.update consumers thread pc other).clearing = some block →
      (consumers other).clearing = some block := by
    intro other here
    by_cases same : other = thread
    · rw [same, Function.update_self, clearing] at here
      cases here
    · rwa [Function.update_of_ne same] at here
  exact alone first second block (moved here) (moved there)

omit [Fintype Thread] in
theorem clearing_update {consumers : Thread → ConsumerPc Address Element} {block : Nat}
    (clears : ∃ other, (consumers other).clearing = some block) (free : (consumers thread).clearing ≠ some block) :
    ∃ other, (Function.update consumers thread pc other).clearing = some block := by
  obtain ⟨other, clears⟩ := clears
  refine ⟨other, ?_⟩
  have different : other ≠ thread := by
    intro same
    exact free (same ▸ clears)
  rwa [Function.update_of_ne different]

omit [Fintype Thread] in
theorem knows_update (own : pc.Knows after) (others : ∀ other ≠ thread, (before.consumers other).Knows after)
    (other : Thread) :
    (Function.update before.consumers thread pc other).Knows after := by
  by_cases here : other = thread
  · rwa [here, Function.update_self]
  · rw [Function.update_of_ne here]
    exact others other here

/-- A thread reads, or draws or hands back a ticket. -/
theorem Sound.idle (sound : Sound noexceptCtor before) {old : ConsumerPc Address Element}
    (here : before.consumers thread = old) {optimistic overcommit drawn : Nat}
    (counted : ∃ image, Counted ({ before with
      dequeueOptimisticCount := optimistic, dequeueOvercommit := overcommit, drawn }.consumerAt thread pc) image)
    (same : pc.claimed = old.claimed ∧ pc.uncounted = old.uncounted ∧ pc.block = old.block ∧ pc.clearing = none ∧
      old.clearing = none)
    (knows : pc.Knows before) :
    Sound noexceptCtor ({ before with
      dequeueOptimisticCount := optimistic, dequeueOvercommit := overcommit, drawn }.consumerAt thread pc) := by
  rw [← here] at same
  obtain ⟨claimed, uncounted, block, clearing, free⟩ := same
  have taken : ∀ index, State.Taken ({ before with
      dequeueOptimisticCount := optimistic, dequeueOvercommit := overcommit, drawn }.consumerAt thread pc) index ↔
        before.Taken index := State.taken_update claimed
  refine ⟨sound.defined, counted, sound.indexed, sound.produces, sound.filled, sound.tailBlock, ?_,
    sound.retired, ?_, ?_, ?_, ?_, ?_, ?_⟩
  · rw [State.owned_update, block]
    have same : Function.update before.owned (.inr thread) (before.consumers thread).block = before.owned :=
      Function.update_eq_self (.inr thread) before.owned
    exact same.symm ▸ sound.owned
  · exact knows_update knows fun other _ => sound.knows other
  · exact alone_update sound.alone clearing
  · intro block address found index inside gone
    exact sound.taken block address found index inside ((taken index).mp gone)
  · intro block address found index inside present
    exact sound.kept block address found index inside fun gone => present ((taken index).mpr gone)
  · intro block address found
    exact (congrArg (_ + ·) (threadsAt_within uncounted block)).trans (sound.counts block address found)
  · intro block address found full
    exact clearing_update (sound.emptied block address found full) (by simp [free])

/-- The block of the element that the thread has claimed. -/
def ConsumerPc.inside (pc : ConsumerPc Address Element) : Option Nat :=
  (pc.uncounted.map (· / blockSize)).or pc.clearing

/-- What may become of a state without taking from what a thread knows. -/
structure Grows (before after : State Thread Address Element) (pc : ConsumerPc Address Element) : Prop where
  live : ∀ block, pc.inside = some block → after.live block = before.live block
  entryOf : ∀ block, pc.inside = some block → after.index.entryOf block = before.index.entryOf block
  loaded : ∀ header block, Loaded before.index before.started.length header block →
    Loaded after.index after.started.length header block
  blockIndex : before.index.blockIndex ≤ after.index.blockIndex
  headers : ∀ header ≤ before.index.blockIndex, (before.index.headers header).keyed ≤
    (after.index.headers header).keyed ∧ (after.index.headers header).position = (before.index.headers header).position
  enqueued : ∀ (index : Nat) (element : Element), before.enqueued[index]? = some element →
    after.enqueued[index]? = some element
  counts : ∀ index entry block element, pc = .clearEntry index entry block element →
    (after.blocks block).elementsCompletelyDequeued = (before.blocks block).elementsCompletelyDequeued

omit [DecidableEq Thread] [Fintype Thread] in
theorem Grows.knows (grows : Grows before after pc) (knows : pc.Knows before) : pc.Knows after := by
  cases pc with
  | outside | loadTail | loadOvercommit | loadOptimistic | addOptimistic | compare | addOvercommit | addHead => trivial
  | loadBlockIndex index =>
      obtain ⟨address, found⟩ := knows
      exact ⟨address, (grows.live _ rfl).trans found⟩
  | loadIndexTail index header =>
      obtain ⟨⟨address, found⟩, loaded⟩ := knows
      exact ⟨⟨address, (grows.live _ rfl).trans found⟩, grows.loaded _ _ loaded⟩
  | loadKey index header tail =>
      obtain ⟨⟨address, found⟩, known, later, ordered, keyed, stands⟩ := knows
      obtain ⟨more, same⟩ := grows.headers header known
      refine ⟨⟨address, (grows.live _ rfl).trans found⟩, Nat.le_trans known grows.blockIndex, later, ordered,
        Nat.lt_of_lt_of_le keyed more, ?_⟩
      rw [same]
      exact stands
  | loadValue index entry =>
      obtain ⟨⟨address, found⟩, same⟩ := knows
      exact ⟨⟨address, (grows.live _ rfl).trans found⟩, same.trans (grows.entryOf _ rfl).symm⟩
  | moveElement index entry block =>
      exact ⟨(grows.live _ rfl).trans knows.1, knows.2.trans (grows.entryOf _ rfl).symm⟩
  | setEmpty index entry block element =>
      obtain ⟨found, same, element⟩ := knows
      exact ⟨(grows.live _ rfl).trans found, same.trans (grows.entryOf _ rfl).symm, grows.enqueued _ _ element⟩
  | clearEntry index entry block element =>
      obtain ⟨found, same, element, count⟩ := knows
      exact ⟨(grows.live _ rfl).trans found, same.trans (grows.entryOf _ rfl).symm, grows.enqueued _ _ element,
        (grows.counts _ _ _ _ rfl).trans count⟩
  | addToFreeList index block element => exact grows.enqueued _ _ knows

omit [DecidableEq Thread] [Fintype Thread] in
/-- Where the rings and the elements stay the same. -/
theorem grows_of_counts (live : ∀ block, pc.inside = some block → after.live block = before.live block)
    (entryOf : after.index.entryOf = before.index.entryOf) (headers : after.index.headers = before.index.headers)
    (blockIndex : after.index.blockIndex = before.index.blockIndex) (started : after.started = before.started)
    (enqueued : after.enqueued = before.enqueued)
    (counts : ∀ index entry block element, pc = .clearEntry index entry block element →
      (after.blocks block).elementsCompletelyDequeued = (before.blocks block).elementsCompletelyDequeued) :
    Grows before after pc := by
  refine ⟨live, ?_, ?_, ?_, ?_, ?_, counts⟩
  · intro block _
    rw [entryOf]
  · intro header block loaded
    rwa [Loaded, headers, blockIndex, started]
  · rw [blockIndex]
  · intro header _
    rw [headers]
    exact ⟨Nat.le_refl _, rfl⟩
  · intro position element found
    rwa [enqueued]

/-! ## Claiming an element -/

theorem Sound.addHead (sound : Sound noexceptCtor before) (young : Young before)
    (here : before.consumers thread = .addHead) :
    Sound noexceptCtor ({ before with headIndex := uint64 (before.headIndex + 1 : Nat) }.consumerAt thread
      (.loadBlockIndex before.headIndex)) := by
  obtain ⟨image, counted⟩ := sound.counted
  have place := (counted.places thread).trans (congrArg ConsumerPc.place here)
  have offered : before.headIndex < before.enqueued.length := by
    rw [counted.headIndex, ← counted.tail]
    exact counted.sound.head_lt place
  have few := young.1
  have advanced := counted.addHead young.1 here
  rw [uint64_succ (by omega)] at advanced ⊢
  have taken : ∀ index, State.Taken ({ before with headIndex := before.headIndex + 1 }.consumerAt thread
      (.loadBlockIndex before.headIndex)) index ↔ before.Taken index := by
    intro index
    constructor
    · intro gone
      obtain ⟨below, free⟩ := gone
      have own : before.headIndex ≠ index := by
        have other := free thread
        rw [State.consumerAt_self] at other
        exact fun same => other (congrArg some same)
      refine ⟨Nat.lt_of_le_of_ne (Nat.le_of_lt_succ below) own.symm, fun other => ?_⟩
      by_cases same : other = thread
      · rw [same, here]
        intro claims
        cases claims
      · have kept := free other
        rwa [State.consumerAt_other same] at kept
    · intro gone
      obtain ⟨below, free⟩ := gone
      refine ⟨Nat.lt_succ_of_lt below, fun other => ?_⟩
      by_cases same : other = thread
      · rw [same, State.consumerAt_self]
        intro equal
        exact Nat.ne_of_lt below (Option.some.inj equal).symm
      · rw [State.consumerAt_other same]
        exact free other
  refine ⟨sound.defined, advanced, sound.indexed, sound.produces, sound.filled, sound.tailBlock, ?_, ?_, ?_,
    alone_update sound.alone rfl, ?_, ?_, ?_, ?_⟩
  · rw [State.owned_update]
    have same : Function.update before.owned (.inr thread) (before.consumers thread).block = before.owned :=
      Function.update_eq_self (.inr thread) before.owned
    rw [here] at same
    exact same.symm ▸ sound.owned
  · intro block member
    exact Nat.le_succ_of_le (sound.retired block member)
  · exact knows_update (sound.live_head offered) fun other _ => sound.knows other
  · intro block address found index inside gone
    exact sound.taken block address found index inside ((taken index).mp gone)
  · intro block address found index inside present
    exact sound.kept block address found index inside fun gone => present ((taken index).mpr gone)
  · intro block address found
    have counts := sound.counts block address found
    have moved := threadsAt_update (ConsumerPc.Within block) before.consumers thread (.loadBlockIndex before.headIndex)
    rw [here, if_neg (not_within rfl block)] at moved
    change (before.blocks address).elementsCompletelyDequeued +
      threadsAt _ (Function.update before.consumers thread _) = min blockSize (before.headIndex + 1 - block * blockSize)
    by_cases within : before.headIndex / blockSize = block
    · rw [if_pos ((within_iff rfl block).mpr within)] at moved
      simp only [blockSize] at counts within ⊢
      omega
    · rw [if_neg (within ∘ (within_iff rfl block).mp)] at moved
      simp only [blockSize] at counts within ⊢
      omega
  · intro block address found full
    exact clearing_update (sound.emptied block address found full) (by simp [here, ConsumerPc.clearing])

end Steps

end Ndnperf.Cxx.ImplicitProducer

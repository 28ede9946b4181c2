import Ndnperf.Cxx.ConsumerSteps

namespace Ndnperf.Cxx.ImplicitProducer

open Library.Word Library.Transition Library.Threads Library.Ownership

variable {Thread Address Element : Type} [DecidableEq Address] {state : State Thread Address Element}

/-! ## Cells and counts -/

theorem State.setCell_count (block other : Address) (offset : Nat) (content : Option Element) :
    ((state.setCell block offset content).blocks other).elementsCompletelyDequeued =
      (state.blocks other).elementsCompletelyDequeued := by
  by_cases same : other = block
  · simp only [State.setCell, same, Function.update_self]
  · simp only [State.setCell, Function.update_of_ne same]

theorem State.setCell_same (block : Address) (offset : Nat) (content : Option Element) :
    ((state.setCell block offset content).blocks block).elements offset = content := by
  simp only [State.setCell, Function.update_self]

theorem State.setCell_other {block other : Address} {offset position : Nat} (content : Option Element)
    (apart : other = block → position ≠ offset) :
    ((state.setCell block offset content).blocks other).elements position = (state.blocks other).elements position := by
  by_cases same : other = block
  · simp only [State.setCell, same, Function.update_self, Function.update_of_ne (apart same)]
  · simp only [State.setCell, Function.update_of_ne same]

theorem State.setCount_elements (block other : Address) (count : Nat) :
    ((state.setCount block count).blocks other).elements = (state.blocks other).elements := by
  by_cases same : other = block
  · simp only [State.setCount, same, Function.update_self]
  · simp only [State.setCount, Function.update_of_ne same]

theorem State.setCount_same (block : Address) (count : Nat) :
    ((state.setCount block count).blocks block).elementsCompletelyDequeued = count := by
  simp only [State.setCount, Function.update_self]

theorem State.setCount_other {block other : Address} (different : other ≠ block) (count : Nat) :
    ((state.setCount block count).blocks other).elementsCompletelyDequeued =
      (state.blocks other).elementsCompletelyDequeued := by
  simp only [State.setCount, Function.update_of_ne different]

variable [DecidableEq Thread] [Fintype Thread] {before : State Thread Address Element} {thread : Thread}
  {noexceptCtor : Bool} {index entry : Nat} {block : Address} {element : Element}

omit [DecidableEq Address] [DecidableEq Thread] in
/-- A block has one number. -/
theorem Sound.number (sound : Sound noexceptCtor before) {number other : Nat} (home : before.home number = some block)
    (also : before.home other = some block) : number = other :=
  Sum.inl.inj (sound.owned.unique (.inl number) (.inl other) block home also)

omit [DecidableEq Address] [DecidableEq Thread] in
/-- The element that a thread has claimed is in its cell until the thread moves it. -/
theorem Sound.cell (sound : Sound noexceptCtor before) (claims : (before.consumers thread).claimed = some index)
    (place : (before.consumers thread).place = .claimed index) (found : before.live (index / blockSize) = some block) :
    ∃ element, before.enqueued[index]? = some element ∧ (before.blocks block).elements (index % blockSize) =
      some element := by
  obtain ⟨image, counted⟩ := sound.counted
  have offered : index < before.enqueued.length := Nat.lt_of_lt_of_le (counted.claimed_lt place) counted.head_le
  have present : ¬before.Taken index := fun gone => gone.2 thread claims
  have kept := sound.kept _ block (sound.home found) index rfl present
  rw [State.constructed, List.getElem?_append_left offered] at kept
  rw [kept, List.getElem?_eq_getElem offered]
  exact ⟨_, rfl, rfl⟩

/-- A thread moves its element out of its cell. -/
theorem Sound.moveElement (sound : Sound noexceptCtor before)
    (here : before.consumers thread = .moveElement index entry block)
    (present : before.enqueued[index]? = some element) :
    Sound noexceptCtor ((before.setCell block (index % blockSize) none).consumerAt thread
      (.setEmpty index entry block element)) := by
  have own := sound.knows thread
  rw [here] at own
  obtain ⟨found, same⟩ := own
  have place := congrArg ConsumerPc.place here
  have claims := congrArg ConsumerPc.claimed here
  obtain ⟨image, counted⟩ := sound.counted
  have below := counted.claimed_lt place
  have gone : ∀ other, State.Taken ((before.setCell block (index % blockSize) none).consumerAt thread
      (.setEmpty index entry block element)) other ↔ other = index ∨ before.Taken other := by
    intro other
    constructor
    · intro taken
      obtain ⟨claimed, free⟩ := taken
      by_cases own : other = index
      · exact .inl own
      · refine .inr ⟨claimed, fun second holds => ?_⟩
        by_cases same : second = thread
        · rw [same, claims] at holds
          exact own (Option.some.inj holds).symm
        · have kept := free second
          rw [State.consumerAt_other same] at kept
          exact kept holds
    · intro taken
      rcases taken with rfl | taken
      · refine ⟨below, fun second holds => ?_⟩
        by_cases same : second = thread
        · rw [same, State.consumerAt_self] at holds
          cases holds
        · rw [State.consumerAt_other same] at holds
          have alike := ConsumerPc.place_of_uncounted (ConsumerPc.uncounted_of_claimed holds)
          exact same (counted.claimed_inj alike place)
      · refine ⟨taken.1, fun second holds => ?_⟩
        by_cases same : second = thread
        · rw [same, State.consumerAt_self] at holds
          cases holds
        · rw [State.consumerAt_other same] at holds
          exact taken.2 second holds
  have apart : ∀ {number address other}, before.home number = some address → other / blockSize = number →
      other ≠ index → address = block → other % blockSize ≠ index % blockSize := by
    intro number address other home inside different same equal
    have alike : number = index / blockSize := sound.number (same ▸ home) (sound.home found)
    have whole := Nat.div_add_mod other blockSize
    rw [inside, alike, equal, Nat.div_add_mod] at whole
    exact different whole.symm
  have stays : Counted (before.consumerAt thread (.setEmpty index entry block element)) image :=
    counted.stays (by rw [here]; rfl)
  refine ⟨sound.defined, ⟨image, { stays with }⟩, sound.indexed, sound.produces, sound.filled,
    sound.tailBlock, ?_, sound.retired, ?_, alone_update sound.alone rfl, ?_, ?_, ?_, ?_⟩
  · rw [State.owned_update]
    have same : Function.update before.owned (.inr thread) (before.consumers thread).block = before.owned :=
      Function.update_eq_self (.inr thread) before.owned
    rw [here] at same
    exact same.symm ▸ sound.owned
  · refine knows_update ⟨found, same, present⟩ fun other _ => ?_
    have grows : Grows before ((before.setCell block (index % blockSize) none).consumerAt thread
        (.setEmpty index entry block element)) (before.consumers other) :=
      grows_of_counts (fun _ _ => rfl) rfl rfl rfl rfl rfl fun _ _ second _ _ => State.setCell_count block second _ _
    exact grows.knows (sound.knows other)
  · intro number address home other inside taken
    by_cases own : address = block ∧ other % blockSize = index % blockSize
    · rw [own.1, own.2]
      exact State.setCell_same block _ _
    · refine (State.setCell_other none fun same => fun equal => own ⟨same, equal⟩).trans ?_
      rcases (gone other).mp taken with rfl | taken
      · have alike := home.symm.trans (inside ▸ sound.home found)
        exact absurd ⟨Option.some.inj alike, rfl⟩ own
      · exact sound.taken number address home other inside taken
  · intro number address home other inside stays
    have different : other ≠ index := fun own => stays ((gone other).mpr (.inl own))
    refine (State.setCell_other none (apart home inside different)).trans ?_
    exact sound.kept number address home other inside fun taken => stays ((gone other).mpr (.inr taken))
  · intro number address home
    have counts := sound.counts number address home
    have uncounted : (ConsumerPc.setEmpty index entry block element).uncounted =
        (before.consumers thread).uncounted := by
      rw [here]
      rfl
    rw [← threadsAt_within uncounted, ← State.setCell_count block address (index % blockSize) none] at counts
    exact counts
  · intro number address home full
    have counted := (State.setCell_count block address (index % blockSize) none).symm.trans full
    have free : (before.consumers thread).clearing ≠ some number := by
      rw [here]
      exact (Option.some_ne_none number).symm
    exact clearing_update (sound.emptied number address home counted) free

omit [DecidableEq Address] [DecidableEq Thread] in
theorem Sound.count_lt (sound : Sound noexceptCtor before)
    (uncounted : (before.consumers thread).uncounted = some index)
    (found : before.live (index / blockSize) = some block) :
    (before.blocks block).elementsCompletelyDequeued < blockSize := by
  have counts := sound.counts _ block (sound.home found)
  have within := threadsAt_pos (ConsumerPc.Within (index / blockSize)) ((within_iff uncounted _).mpr rfl)
  omega

omit [DecidableEq Address] [DecidableEq Thread] in
theorem Sound.clearing (sound : Sound noexceptCtor before) {number : Nat}
    (clears : (before.consumers thread).clearing = some number) :
    ∃ address, before.live number = some address ∧ (before.blocks address).elementsCompletelyDequeued = blockSize := by
  have knows := sound.knows thread
  cases pc : before.consumers thread with
  | clearEntry index entry block element =>
      rw [pc] at clears knows
      cases clears
      exact ⟨block, knows.1, knows.2.2.2⟩
  | outside | loadTail | loadOvercommit | loadOptimistic | addOptimistic | compare | addOvercommit | addHead
  | loadBlockIndex | loadIndexTail | loadKey | loadValue | moveElement | setEmpty | addToFreeList =>
      rw [pc] at clears
      cases clears

/-- A thread counts its element as taken out of the block. -/
theorem Sound.count (sound : Sound noexceptCtor before) {pc : ConsumerPc Address Element}
    (here : before.consumers thread = .setEmpty index entry block element)
    (counted : ∃ image, Counted (before.consumerAt thread pc) image)
    (free : pc.claimed = none ∧ pc.uncounted = none ∧ pc.block = none)
    (clears : ∀ number, pc.clearing = some number ↔
      number = index / blockSize ∧ (before.blocks block).elementsCompletelyDequeued = blockSize - 1)
    (knows : pc.Knows (before.setCount block ((before.blocks block).elementsCompletelyDequeued + 1))) :
    Sound noexceptCtor
      ((before.setCount block ((before.blocks block).elementsCompletelyDequeued + 1)).consumerAt thread pc) := by
  have own := sound.knows thread
  rw [here] at own
  obtain ⟨found, _, _⟩ := own
  have uncounted : (before.consumers thread).uncounted = some index := congrArg ConsumerPc.uncounted here
  have few := sound.count_lt uncounted found
  have same : pc.claimed = (before.consumers thread).claimed := by
    rw [here]
    exact free.1
  have taken : ∀ other, State.Taken
      ((before.setCount block ((before.blocks block).elementsCompletelyDequeued + 1)).consumerAt thread pc) other ↔
        before.Taken other := State.taken_update same
  have unfinished : ∀ other, pc.clearing = some (index / blockSize) →
      (before.consumers other).clearing ≠ some (index / blockSize) := by
    intro other last clearing
    obtain ⟨address, also, full⟩ := sound.clearing clearing
    obtain ⟨_, almost⟩ := (clears _).mp last
    rw [Option.some.inj (found.symm.trans also), full] at almost
    cases almost
  obtain ⟨image, counted⟩ := counted
  refine ⟨sound.defined, ⟨image, { counted with }⟩, sound.indexed, sound.produces, sound.filled, sound.tailBlock, ?_,
    sound.retired, ?_, ?_, ?_, ?_, ?_, ?_⟩
  · rw [State.owned_update, free.2.2]
    have kept : Function.update before.owned (.inr thread) (before.consumers thread).block = before.owned :=
      Function.update_eq_self (.inr thread) before.owned
    rw [here] at kept
    exact kept.symm ▸ sound.owned
  · refine knows_update knows fun other _ => ?_
    have grows : Grows before
        ((before.setCount block ((before.blocks block).elementsCompletelyDequeued + 1)).consumerAt thread pc)
        (before.consumers other) := by
      refine grows_of_counts (fun _ _ => rfl) rfl rfl rfl rfl rfl fun second _ address third there => ?_
      refine State.setCount_other ?_ _
      intro equal
      have known := sound.knows other
      rw [there, equal] at known
      have full := known.2.2.2
      omega
    exact grows.knows (sound.knows other)
  · intro first second number clearing also
    by_cases left : first = thread
    · by_cases right : second = thread
      · exact left.trans right.symm
      · rw [left, State.consumerAt_self] at clearing
        rw [State.consumerAt_other right] at also
        obtain ⟨rfl, _⟩ := (clears number).mp clearing
        exact absurd also (unfinished second clearing)
    · rw [State.consumerAt_other left] at clearing
      by_cases right : second = thread
      · rw [right, State.consumerAt_self] at also
        obtain ⟨rfl, _⟩ := (clears number).mp also
        exact absurd clearing (unfinished first also)
      · rw [State.consumerAt_other right] at also
        exact sound.alone first second number clearing also
  · intro number address home other inside gone
    have kept := sound.taken number address home other inside ((taken other).mp gone)
    rwa [← State.setCount_elements block address ((before.blocks block).elementsCompletelyDequeued + 1)] at kept
  · intro number address home other inside stays
    have kept := sound.kept number address home other inside fun gone => stays ((taken other).mpr gone)
    rwa [← State.setCount_elements block address ((before.blocks block).elementsCompletelyDequeued + 1)] at kept
  · intro number address home
    have counts := sound.counts number address home
    have moved := threadsAt_update (ConsumerPc.Within number) before.consumers thread pc
    rw [if_neg (not_within free.2.1 number)] at moved
    change ((before.setCount block _).blocks address).elementsCompletelyDequeued +
      threadsAt _ (Function.update before.consumers thread pc) = min blockSize (before.headIndex - number * blockSize)
    by_cases alike : address = block
    · have number := sound.number (alike ▸ home) (sound.home found)
      rw [if_pos ((within_iff uncounted _).mpr number.symm)] at moved
      rw [alike, State.setCount_same]
      rw [alike] at counts
      omega
    · have apart : index / blockSize ≠ number := by
        intro equal
        exact alike (Option.some.inj (home.symm.trans (equal ▸ sound.home found)))
      rw [if_neg (apart ∘ (within_iff uncounted _).mp)] at moved
      rw [State.setCount_other alike]
      omega
  · intro number address home full
    by_cases alike : address = block
    · have number := sound.number (alike ▸ home) (sound.home found)
      refine ⟨thread, ?_⟩
      have last : (before.blocks block).elementsCompletelyDequeued + 1 = blockSize :=
        (State.setCount_same block _).symm.trans (alike ▸ full)
      rw [State.consumerAt_self, clears]
      exact ⟨number, Nat.eq_sub_of_add_eq last⟩
    · have counted := (State.setCount_other alike _).symm.trans full
      have idle : (before.consumers thread).clearing ≠ some number := by
        rw [here]
        exact (Option.some_ne_none number).symm
      exact clearing_update (sound.emptied number address home counted) idle

theorem Sound.setEmpty (sound : Sound noexceptCtor before)
    (here : before.consumers thread = .setEmpty index entry block element) :
    Sound noexceptCtor ((before.setCount block ((before.blocks block).elementsCompletelyDequeued + 1)).consumerAt thread
      (if (before.blocks block).elementsCompletelyDequeued = blockSize - 1 then .clearEntry index entry block element
        else .outside (some element))) := by
  have own := sound.knows thread
  rw [here] at own
  obtain ⟨found, same, present⟩ := own
  obtain ⟨image, counted⟩ := sound.counted
  split
  · rename_i last
    refine sound.count here ⟨image, counted.stays (by rw [here]; rfl)⟩ ⟨rfl, rfl, rfl⟩ ?_ ?_
    · intro number
      rw [and_iff_left last]
      exact Option.some_inj.trans eq_comm
    · refine ⟨found, same, present, ?_⟩
      rw [State.setCount_same, last]
      rfl
  · rename_i more
    refine sound.count here (counted.leave (congrArg ConsumerPc.place here) _) ⟨rfl, rfl, rfl⟩
      (fun number => ?_) trivial
    exact iff_of_false (Option.some_ne_none number).symm fun last => more last.2

omit [DecidableEq Address] in
theorem cleared {ring : BlockIndex Address} (entry : Nat) :
    ((ring.storeValue entry .null).entries entry).value = .null :=
  congrArg BlockIndexEntry.value (storeValue_same entry .null)

omit [DecidableEq Address] in
theorem ProducerPc.Knows.clear {pc : ProducerPc Address Element} {ring : BlockIndex Address} {started : Nat}
    (knows : pc.Knows ring started) (entry : Nat) : pc.Knows (ring.storeValue entry .null) started := by
  have settled : ring.Settled started → (ring.storeValue entry .null).Settled started := by
    intro settled keyed
    by_cases same : ring.entryOf started = entry
    · exact (congrArg (fun cell => BlockIndexEntry.value ((ring.storeValue entry .null).entries cell)) same).trans
        (cleared entry)
    · exact (congrArg BlockIndexEntry.value (storeValue_other same .null)).trans (settled keyed)
  cases pc with
  | outside | loadHead | loadEntry | construct | storeTailIndex | addToFreeList => exact settled knows
  | newBlockIndex | storeTail | requisitionBlock | constructFirst | storeValue | rewind | clearEntry => exact knows
  | storeKey =>
      rcases knows with unused | null
      · exact .inl ((storeValue_key _ _ _).trans unused)
      · right
        by_cases same : ring.nextEntry = entry
        · exact (congrArg (fun cell => BlockIndexEntry.value ((ring.storeValue entry .null).entries cell)) same).trans
            (cleared entry)
        · exact (congrArg BlockIndexEntry.value (storeValue_other same .null)).trans null

omit [DecidableEq Address] [DecidableEq Thread] in
/-- What a thread knows of a block that is not counted out holds on when another one leaves the index. -/
theorem Sound.inside_ne (sound : Sound noexceptCtor before) {other : Thread} (different : other ≠ thread)
    (clears : (before.consumers thread).clearing = some entry) {number : Nat}
    (inside : (before.consumers other).inside = some number) : number ≠ entry := by
  intro same
  subst same
  obtain ⟨address, found, full⟩ := sound.clearing clears
  rcases Option.or_eq_some_iff.mp inside with within | ⟨_, clearing⟩
  · have counts := sound.counts number address (sound.home found)
    have some := threadsAt_pos (ConsumerPc.Within number) within
    omega
  · exact different (sound.alone other thread number clearing clears)

/-- A thread takes out of the index a block whose elements have all been counted. -/
theorem Sound.clearEntry (sound : Sound noexceptCtor before)
    (here : before.consumers thread = .clearEntry index entry block element) :
    Sound noexceptCtor ({ before with
      index := before.index.storeValue entry .null
      retired := insert (index / blockSize) before.retired }.consumerAt thread
        (.addToFreeList index block element)) := by
  have own := sound.knows thread
  rw [here] at own
  obtain ⟨found, rfl, present, full⟩ := own
  obtain ⟨image, counted⟩ := sound.counted
  have stays : Counted (before.consumerAt thread (.addToFreeList index block element)) image :=
    counted.stays (by rw [here]; rfl)
  have started := sound.indexed.live_lt _ block found
  have clears : (before.consumers thread).clearing = some (index / blockSize) := congrArg ConsumerPc.clearing here
  generalize next : ({ before with
      index := before.index.storeValue (before.index.entryOf (index / blockSize)) .null
      retired := insert (index / blockSize) before.retired } : State Thread Address Element) = after
  have live : after.live = Function.update before.live (index / blockSize) none := by
    subst next
    funext number
    by_cases same : number = index / blockSize
    · rw [same, Function.update_self]
      exact if_pos (Finset.mem_insert_self _ _)
    · rw [Function.update_of_ne same]
      simp only [State.live, Finset.mem_insert, same, false_or]
  have home : ∀ number, after.home number = Function.update before.home (index / blockSize) none number := by
    intro number
    by_cases same : number = index / blockSize
    · rw [same, Function.update_self, State.home, live, Function.update_self, if_neg]
      subst next
      exact Nat.ne_of_lt started
    · rw [Function.update_of_ne same, State.home, State.home, live, Function.update_of_ne same]
      subst next
      rfl
  have kept : ∀ {number address}, after.home number = some address → before.home number = some address := by
    intro number address found
    rw [home] at found
    by_cases same : number = index / blockSize
    · rw [same, Function.update_self] at found
      cases found
    · rwa [Function.update_of_ne same] at found
  have claimed : (ConsumerPc.addToFreeList index block element).claimed = (before.consumers thread).claimed := by
    rw [here]
    rfl
  have uncounted : (ConsumerPc.addToFreeList index block element).uncounted = (before.consumers thread).uncounted := by
    rw [here]
    rfl
  have taken := State.taken_update claimed
  subst next
  refine ⟨sound.defined, ⟨image, { stays with }⟩, ?_, sound.produces.clear _, sound.filled, sound.tailBlock, ?_, ?_, ?_,
    alone_update sound.alone rfl, ?_, ?_, ?_, ?_⟩
  · rw [show State.live (State.consumerAt _ thread _) = _ from live]
    exact sound.indexed.clear found
  · have passed := sound.owned.transfer (show before.owned (.inl (index / blockSize)) = some block
      from sound.home found)
      (show before.owned (.inr thread) = none from congrArg ConsumerPc.block here)
    refine Eq.mpr (congrArg (Exclusive · _) ?_) passed
    rw [State.owned_update]
    congr 1
    funext owner
    cases owner with
    | inl number =>
        refine (home number).trans ?_
        by_cases same : number = index / blockSize
        · rw [same, Function.update_self, Function.update_self]
        · rw [Function.update_of_ne same, Function.update_of_ne (by simpa using same)]
          rfl
    | inr other => exact (Function.update_of_ne (by simp) _ _).symm
  · intro number member
    rcases Finset.mem_insert.mp member with rfl | earlier
    · have counts := sound.counts _ block (sound.home found)
      change _ ≤ before.headIndex
      simp only [blockSize] at counts full ⊢
      omega
    · exact sound.retired number earlier
  · refine knows_update present fun other different => ?_
    have grows : Grows before
        { before with
          index := before.index.storeValue (before.index.entryOf (index / blockSize)) .null
          retired := insert (index / blockSize) before.retired } (before.consumers other) := by
      refine grows_of_counts ?_ rfl rfl rfl rfl rfl fun _ _ _ _ _ => rfl
      intro number inside
      rw [live, Function.update_of_ne (sound.inside_ne different clears inside)]
    exact grows.knows (sound.knows other)
  · intro number address found other inside gone
    exact sound.taken number address (kept found) other inside ((taken other).mp gone)
  · intro number address found other inside stays
    exact sound.kept number address (kept found) other inside fun gone => stays ((taken other).mpr gone)
  · intro number address found
    exact (congrArg (_ + ·) (threadsAt_within uncounted number)).trans (sound.counts number address (kept found))
  · intro number address found counted
    refine clearing_update (sound.emptied number address (kept found) counted) fun same => ?_
    have absent := (home number).symm.trans found
    rw [← Option.some.inj (clears.symm.trans same), Function.update_self] at absent
    cases absent

/-- A thread gives a block back that it has taken out of the index. -/
theorem Sound.giveBack (sound : Sound noexceptCtor before)
    (here : before.consumers thread = .addToFreeList index block element) :
    Sound noexceptCtor ((before.giveBack block).consumerAt thread (.outside (some element))) := by
  have has : before.owned (.inr thread) = some block := congrArg ConsumerPc.block here
  obtain ⟨image, counted⟩ := sound.counted
  obtain ⟨next, leaves⟩ := counted.leave (congrArg ConsumerPc.place here) (some element)
  have claimed : (ConsumerPc.outside (some element) : ConsumerPc Address Element).claimed =
      (before.consumers thread).claimed := by
    rw [here]
    rfl
  have uncounted : (ConsumerPc.outside (some element) : ConsumerPc Address Element).uncounted =
      (before.consumers thread).uncounted := by
    rw [here]
    rfl
  have taken := State.taken_update claimed
  rw [State.giveBack, if_pos (sound.owned.mem has)]
  refine ⟨sound.defined, ⟨next, { leaves with }⟩, sound.indexed, sound.produces, sound.filled, sound.tailBlock, ?_,
    sound.retired, knows_update trivial fun other _ => sound.knows other, alone_update sound.alone rfl, ?_, ?_, ?_, ?_⟩
  · rw [State.owned_update]
    exact sound.owned.release has
  · intro number address found other inside gone
    exact sound.taken number address found other inside ((taken other).mp gone)
  · intro number address found other inside stays
    exact sound.kept number address found other inside fun gone => stays ((taken other).mpr gone)
  · intro number address found
    exact (congrArg (_ + ·) (threadsAt_within uncounted number)).trans (sound.counts number address found)
  · intro number address found full
    have free : (before.consumers thread).clearing ≠ some number := by
      rw [here]
      exact (Option.some_ne_none number).symm
    exact clearing_update (sound.emptied number address found full) free

/-! ## A step of a thread that dequeues -/

omit [DecidableEq Address] [DecidableEq Thread] in
theorem Sound.started_lt (sound : Sound noexceptCtor before) (young : Young before) :
    before.started.length * blockSize < 2 ^ 63 := by
  have bounds := sound.filled.bounds
  have few := young.1
  simp only [blockSize] at bounds ⊢
  omega

theorem Sound.consume (sound : Sound noexceptCtor before) {after : State Thread Address Element} (young : Young after)
    (moved : consume before thread = some after) : Sound noexceptCtor after := by
  have own := sound.knows thread
  obtain ⟨image, counted⟩ := sound.counted
  cases here : before.consumers thread with
  | outside => simp only [ImplicitProducer.consume, here, reduceCtorEq] at moved
  | loadTail =>
      simp only [ImplicitProducer.consume, here, Option.some.injEq] at moved
      exact moved ▸ sound.idle here (counted.loadTail here) ⟨rfl, rfl, rfl, rfl, rfl⟩ trivial
  | loadOvercommit tail =>
      simp only [ImplicitProducer.consume, here, Option.some.injEq] at moved
      exact moved ▸ sound.idle here (counted.loadOvercommit here) ⟨rfl, rfl, rfl, rfl, rfl⟩ trivial
  | loadOptimistic tail overcommit =>
      simp only [ImplicitProducer.consume, here, Option.some.injEq] at moved
      subst moved
      refine sound.idle here (counted.loadOptimistic young here) ?_ ?_
      · split <;> exact ⟨rfl, rfl, rfl, rfl, rfl⟩
      · split <;> trivial
  | addOptimistic overcommit =>
      simp only [ImplicitProducer.consume, here, Option.some.injEq] at moved
      subst moved
      exact sound.idle here (counted.addOptimistic (Nat.lt_of_succ_lt young.2) here) ⟨rfl, rfl, rfl, rfl, rfl⟩ trivial
  | compare overcommit myDequeueCount =>
      simp only [ImplicitProducer.consume, here, Option.some.injEq] at moved
      subst moved
      refine sound.idle here (counted.compare young here) ?_ ?_
      · split <;> exact ⟨rfl, rfl, rfl, rfl, rfl⟩
      · split <;> trivial
  | addOvercommit =>
      simp only [ImplicitProducer.consume, here, Option.some.injEq] at moved
      subst moved
      exact sound.idle here (counted.addOvercommit young.2 here) ⟨rfl, rfl, rfl, rfl, rfl⟩ trivial
  | addHead =>
      simp only [ImplicitProducer.consume, here, Option.some.injEq] at moved
      subst moved
      exact sound.addHead young here
  | loadBlockIndex index =>
      rw [here] at own
      simp only [ImplicitProducer.consume, here, Option.some.injEq] at moved
      subst moved
      obtain ⟨address, found⟩ := own
      refine sound.idle here ⟨image, counted.stays (by rw [here]; rfl)⟩ ⟨rfl, rfl, rfl, rfl, rfl⟩
        ⟨⟨address, found⟩, Nat.le_refl _, ?_⟩
      rw [if_pos rfl]
      exact sound.indexed.live_lt _ address found
  | loadIndexTail index header =>
      rw [here] at own
      simp only [ImplicitProducer.consume, here, Option.some.injEq] at moved
      subst moved
      obtain ⟨⟨address, found⟩, loaded⟩ := own
      exact sound.idle here ⟨image, counted.stays (by rw [here]; rfl)⟩ ⟨rfl, rfl, rfl, rfl, rfl⟩
        ⟨⟨address, found⟩, loaded.1, sound.indexed.tail_position found loaded⟩
  | loadKey index header tail =>
      rw [here] at own
      simp only [ImplicitProducer.consume, here, Option.some.injEq] at moved
      subst moved
      obtain ⟨⟨address, found⟩, known, later, ordered, keyed, rfl⟩ := own
      exact sound.idle here ⟨image, counted.stays (by rw [here]; rfl)⟩ ⟨rfl, rfl, rfl, rfl, rfl⟩
        ⟨⟨address, found⟩, sound.indexed.lookup found known ordered keyed rfl (sound.started_lt young)⟩
  | loadValue index entry =>
      rw [here] at own
      obtain ⟨⟨address, found⟩, rfl⟩ := own
      simp only [ImplicitProducer.consume, here, sound.indexed.live_entry _ address found, Option.some.injEq] at moved
      subst moved
      exact sound.idle here ⟨image, counted.stays (by rw [here]; rfl)⟩ ⟨rfl, rfl, rfl, rfl, rfl⟩ ⟨found, rfl⟩
  | moveElement index entry block =>
      rw [here] at own
      obtain ⟨element, present, cell⟩ :=
        sound.cell (congrArg ConsumerPc.claimed here) (congrArg ConsumerPc.place here) own.1
      simp only [ImplicitProducer.consume, here, cell, Option.some.injEq] at moved
      exact moved ▸ sound.moveElement here present
  | setEmpty index entry block element =>
      simp only [ImplicitProducer.consume, here, Option.some.injEq] at moved
      exact moved ▸ sound.setEmpty here
  | clearEntry index entry block element =>
      simp only [ImplicitProducer.consume, here, Option.some.injEq] at moved
      exact moved ▸ sound.clearEntry here
  | addToFreeList index block element =>
      simp only [ImplicitProducer.consume, here, Option.some.injEq] at moved
      exact moved ▸ sound.giveBack here

end Ndnperf.Cxx.ImplicitProducer

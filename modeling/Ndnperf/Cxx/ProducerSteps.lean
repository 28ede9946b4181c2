import Ndnperf.Cxx.ConsumerBlocks

namespace Ndnperf.Cxx.ImplicitProducer

open Library.Word Library.Transition Library.Threads Library.Ownership

/-! ## What the threads that dequeue see of the index -/

section Rings

variable {Address : Type} {index ring : BlockIndex Address} {started tailed : Nat} {live : Nat → Option Address}

/-- What the thread that enqueues may do to the index while others read it. -/
structure Extends (index ring : BlockIndex Address) (started : Nat) : Prop where
  entryOf : ∀ block < started, ring.entryOf block = index.entryOf block
  blockIndex : index.blockIndex ≤ ring.blockIndex
  headers : ∀ header ≤ index.blockIndex, (index.headers header).keyed ≤ (ring.headers header).keyed ∧
    (ring.headers header).position = (index.headers header).position
  loaded : ∀ header block, Loaded index started header block → Loaded ring started header block

theorem Extends.refl (index : BlockIndex Address) (started : Nat) : Extends index index started :=
  ⟨fun _ _ => rfl, Nat.le_refl _, fun _ _ => ⟨Nat.le_refl _, rfl⟩, fun _ _ => id⟩

theorem extends_storeValue (entry : Nat) (value : BlockPointer Address) (started : Nat) :
    Extends index (index.storeValue entry value) started :=
  ⟨fun _ _ => rfl, Nat.le_refl _, fun _ _ => ⟨Nat.le_refl _, rfl⟩, fun _ _ => id⟩

theorem extends_storeTail (tail started : Nat) : Extends index (index.storeTail tail) started := by
  have kept : ∀ header, ((index.storeTail tail).headers header).keyed = (index.headers header).keyed ∧
      ((index.storeTail tail).headers header).position = (index.headers header).position := by
    intro header
    by_cases current : header = index.blockIndex
    · simp only [BlockIndex.storeTail, current, Function.update_self]
      exact ⟨rfl, rfl⟩
    · simp only [BlockIndex.storeTail, Function.update_of_ne current, and_self]
  refine ⟨fun _ _ => rfl, Nat.le_refl _, fun header _ => ⟨(kept header).1.ge, (kept header).2⟩,
    fun header block loaded => ?_⟩
  rw [Loaded, (kept header).1]
  exact loaded

theorem Indexed.extends_storeKey (indexed : Indexed index started tailed live) :
    Extends index (index.storeKey (started * blockSize)) started := by
  have least := Nat.le_trans indexed.started_le indexed.tailed_le
  have few := indexed.keyed_le
  have kept : ∀ header, (index.headers header).keyed ≤ ((index.storeKey (started * blockSize)).headers header).keyed ∧
      ((index.storeKey (started * blockSize)).headers header).position = (index.headers header).position := by
    intro header
    by_cases current : header = index.blockIndex
    · simp only [BlockIndex.storeKey, current, Function.update_self, mul_blockSize_div]
      refine ⟨?_, rfl⟩
      have keyed : (index.headers index.blockIndex).keyed = index.keyed := indexed.header_keyed
      omega
    · simp only [BlockIndex.storeKey, Function.update_of_ne current, Nat.le_refl, and_self]
  refine ⟨fun block below => ?_, Nat.le_refl _, fun header _ => kept header, fun header block loaded => ?_⟩
  · simp only [BlockIndex.storeKey, mul_blockSize_div]
    exact Function.update_of_ne (Nat.ne_of_lt below) _ _
  · obtain ⟨known, below⟩ := loaded
    refine ⟨known, ?_⟩
    change block < if header = index.blockIndex then started else _
    split at below
    · rename_i current
      rwa [if_pos current]
    · rename_i older
      rw [if_neg older]
      exact Nat.lt_of_lt_of_le below (kept header).1

theorem Indexed.extends_newBlockIndex (indexed : Indexed index started tailed live) :
    Extends index index.newBlockIndex started := by
  have kept : ∀ header ≤ index.blockIndex, index.newBlockIndex.headers header = index.headers header :=
    fun header known => Function.update_of_ne (Nat.ne_of_lt (Nat.lt_succ_of_le known)) _ _
  refine ⟨fun _ _ => rfl, Nat.le_succ _, fun header known => ?_, fun header block loaded => ?_⟩
  · rw [kept header known]
    exact ⟨Nat.le_refl _, rfl⟩
  · obtain ⟨known, below⟩ := loaded
    refine ⟨Nat.le_succ_of_le known, ?_⟩
    change block < if header = index.blockIndex + 1 then started else _
    rw [if_neg (Nat.ne_of_lt (Nat.lt_succ_of_le known)), kept header known]
    split at below
    · rename_i current
      have keyed : (index.headers header).keyed = index.keyed := by
        rw [current]
        exact indexed.header_keyed
      rw [keyed]
      exact Nat.lt_of_lt_of_le below (Nat.le_trans indexed.started_le indexed.tailed_le)
    · exact below

end Rings

variable {Thread Address Element : Type} [DecidableEq Thread] [DecidableEq Address] [Fintype Thread]
  {before after : State Thread Address Element} {thread : Thread} {pc old : ProducerPc Address Element}
  {noexceptCtor : Bool}

omit [DecidableEq Thread] [DecidableEq Address] in
theorem Sound.inside_live (sound : Sound noexceptCtor before) {block : Nat}
    (inside : (before.consumers thread).inside = some block) : ∃ address, before.live block = some address := by
  have knows := sound.knows thread
  cases place : before.consumers thread with
  | outside | loadTail | loadOvercommit | loadOptimistic | addOptimistic | compare | addOvercommit | addHead
  | addToFreeList =>
      rw [place] at inside
      cases inside
  | loadBlockIndex =>
      rw [place] at inside knows
      cases inside
      exact knows
  | loadIndexTail | loadKey | loadValue =>
      rw [place] at inside knows
      cases inside
      exact knows.1
  | moveElement index entry address | setEmpty index entry address | clearEntry index entry address =>
      rw [place] at inside knows
      cases inside
      exact ⟨address, knows.1⟩

omit [DecidableEq Address] [Fintype Thread] [DecidableEq Thread] in
theorem State.home_producerAt :
    (before.producerAt pc).home = Function.update before.home before.started.length pc.block := by
  funext block
  by_cases latest : block = before.started.length
  · rw [latest, Function.update_self]
    exact if_pos rfl
  · rw [Function.update_of_ne latest, State.home, State.home, if_neg latest]
    exact if_neg latest

omit [DecidableEq Address] [Fintype Thread] [DecidableEq Thread] in
theorem State.constructed_producerAt (nothing : pc.constructed noexceptCtor = none) :
    (before.producerAt pc).constructed noexceptCtor = before.enqueued := by
  rw [State.constructed]
  change before.enqueued ++ (pc.constructed noexceptCtor).toList = before.enqueued
  rw [nothing, Option.toList_none, List.append_nil]

omit [DecidableEq Address] [Fintype Thread] in
theorem State.owned_producerAt :
    (before.producerAt pc).owned = Function.update before.owned (.inl before.started.length) pc.block := by
  funext owner
  cases owner with
  | inl block =>
      refine (congrFun State.home_producerAt block).trans ?_
      by_cases latest : block = before.started.length
      · rw [latest, Function.update_self, Function.update_self]
      · rw [Function.update_of_ne latest, Function.update_of_ne (by simpa using latest)]
        rfl
  | inr other => exact (Function.update_of_ne (by simp) _ _).symm

omit [DecidableEq Thread] [DecidableEq Address] in
/-- The thread that enqueues reads, or changes the index. -/
theorem Sound.reindex (sound : Sound noexceptCtor before) (here : before.producer = old) {ring : BlockIndex Address}
    (same : pc.block = old.block ∧ pc.constructed noexceptCtor = old.constructed noexceptCtor)
    (indexed : Indexed ring before.started.length (before.started.length + pc.inserted) before.live)
    (extend : Extends before.index ring before.started.length) (knows : pc.Knows ring before.started.length)
    (filled : pc.Filled noexceptCtor before.started.length before.enqueued.length) :
    Sound noexceptCtor ({ before with index := ring }.producerAt pc) := by
  rw [← here] at same
  have home : State.home ({ before with index := ring }.producerAt pc) = before.home := by
    rw [State.home_producerAt, same.1]
    exact (Function.update_eq_self_iff ..).mpr (if_pos rfl).symm
  have owned : State.owned ({ before with index := ring }.producerAt pc) = before.owned := by
    simp only [State.owned, home]
    rfl
  obtain ⟨image, counted⟩ := sound.counted
  refine ⟨sound.defined, ⟨image, { counted with }⟩, indexed, knows, filled, sound.tailBlock, owned ▸ sound.owned,
    sound.retired, fun thread => ?_, sound.alone, ?_, ?_, ?_, ?_⟩
  · have grows : Grows before ({ before with index := ring }.producerAt pc) (before.consumers thread) := by
      refine ⟨fun _ _ => rfl, fun block inside => ?_, extend.loaded, extend.blockIndex, extend.headers, fun _ _ => id,
        fun _ _ _ _ _ => rfl⟩
      obtain ⟨address, found⟩ := sound.inside_live inside
      exact extend.entryOf block (sound.indexed.live_lt block address found)
    exact grows.knows (sound.knows thread)
  · rw [home]
    exact sound.taken
  · rw [home]
    simp only [State.constructed, State.producerAt, same.2]
    exact sound.kept
  · rw [home]
    exact sound.counts
  · rw [home]
    exact sound.emptied

omit [DecidableEq Thread] [DecidableEq Address] in
/-- The thread that enqueues only reads. -/
theorem Sound.producerAt (sound : Sound noexceptCtor before) (here : before.producer = old)
    (same : pc.block = old.block ∧ pc.constructed noexceptCtor = old.constructed noexceptCtor ∧
      pc.inserted = old.inserted)
    (knows : pc.Knows before.index before.started.length)
    (filled : pc.Filled noexceptCtor before.started.length before.enqueued.length) :
    Sound noexceptCtor (before.producerAt pc) := by
  have indexed := sound.indexed
  rw [here, ← same.2.2] at indexed
  exact sound.reindex here ⟨same.1, same.2.1⟩ indexed (.refl _ _) knows filled

/-! ## Blocks -/

omit [DecidableEq Thread] [DecidableEq Address] in
theorem Sound.index_lt (sound : Sound noexceptCtor before) {index : Nat}
    (uncounted : (before.consumers thread).uncounted = some index) : index < before.headIndex := by
  obtain ⟨image, counted⟩ := sound.counted
  exact counted.claimed_lt (ConsumerPc.place_of_uncounted uncounted)

omit [DecidableEq Thread] [DecidableEq Address] in
theorem Sound.head_le (sound : Sound noexceptCtor before) : before.headIndex ≤ before.enqueued.length := by
  obtain ⟨image, counted⟩ := sound.counted
  exact counted.head_le

/-- The thread that enqueues gets a block. -/
theorem Sound.requisition (sound : Sound noexceptCtor before) {element : Element} {entry : Nat} {block : Address}
    (here : before.producer = .requisitionBlock element entry) (free : block ∉ before.held)
    (next : pc.block = some block ∧ pc.constructed noexceptCtor = none ∧ pc.inserted = 1)
    (knows : pc.Knows before.index before.started.length)
    (filled : pc.Filled noexceptCtor before.started.length before.enqueued.length) :
    Sound noexceptCtor ({ before with
      blocks := Function.update before.blocks block ⟨0, fun _ => none⟩
      held := insert block before.held }.producerAt pc) := by
  have start := sound.filled
  have tailed := sound.indexed
  rw [here] at start tailed
  change before.enqueued.length = before.started.length * blockSize at start
  have behind := sound.head_le
  have without : before.home before.started.length = none := by
    rw [State.home, if_pos rfl, here]
    rfl
  have earlier : ∀ {number address}, Function.update before.home before.started.length pc.block number = some address →
      number = before.started.length ∧ address = block ∨ before.home number = some address ∧ address ≠ block := by
    intro number address found
    rw [next.1] at found
    obtain ⟨latest, same⟩ | ⟨_, found⟩ := update_eq_some found
    · exact .inl ⟨latest, (Option.some.inj same).symm⟩
    · refine .inr ⟨found, fun same => free ?_⟩
      exact same ▸ sound.owned.mem (show before.owned (.inl number) = some address from found)
  have former : before.constructed noexceptCtor = before.enqueued := by
    simp only [State.constructed, here, ProducerPc.constructed, Option.toList_none, List.append_nil]
  obtain ⟨image, counted⟩ := sound.counted
  refine ⟨sound.defined, ⟨image, { counted with }⟩, ?_, knows, filled, sound.tailBlock, ?_, sound.retired,
    fun thread => ?_, sound.alone, ?_, ?_, ?_, ?_⟩
  · change Indexed before.index before.started.length (before.started.length + pc.inserted) before.live
    rw [next.2.2]
    exact tailed
  · rw [State.owned_producerAt, next.1]
    exact sound.owned.acquire (show before.owned (.inl before.started.length) = none from without) free
  · have grows : Grows before ({ before with
        blocks := Function.update before.blocks block ⟨0, fun _ => none⟩
        held := insert block before.held }.producerAt pc) (before.consumers thread) := by
      refine grows_of_counts (fun _ _ => rfl) rfl rfl rfl rfl rfl fun index entry address element clears => ?_
      have known := sound.knows thread
      rw [clears] at known
      have different : address ≠ block := by
        intro same
        have home := sound.home known.1
        exact free (same ▸ sound.owned.mem (show before.owned (.inl (index / blockSize)) = some address from home))
      exact congrArg Block.elementsCompletelyDequeued (Function.update_of_ne different _ _)
    exact grows.knows (sound.knows thread)
  · rw [State.home_producerAt]
    intro number address found index inside gone
    rcases earlier found with ⟨latest, same⟩ | ⟨found, different⟩
    · rw [same]
      exact congrFun (congrArg Block.elements (Function.update_self block _ before.blocks)) _
    · refine (congrFun (congrArg Block.elements (Function.update_of_ne different _ before.blocks)) _).trans ?_
      exact sound.taken number address found index inside gone
  · rw [State.home_producerAt, State.constructed_producerAt next.2.1]
    intro number address found index inside stays
    rcases earlier found with ⟨latest, same⟩ | ⟨found, different⟩
    · have beyond : before.enqueued.length ≤ index := by
        rw [start, ← latest, ← inside]
        exact Nat.div_mul_le_self index blockSize
      rw [same]
      refine Eq.trans ?_ (List.getElem?_eq_none beyond).symm
      exact congrFun (congrArg Block.elements (Function.update_self block _ before.blocks)) _
    · refine (congrFun (congrArg Block.elements (Function.update_of_ne different _ before.blocks)) _).trans ?_
      rw [← former]
      exact sound.kept number address found index inside stays
  · rw [State.home_producerAt]
    intro number address found
    rcases earlier found with ⟨latest, same⟩ | ⟨found, different⟩
    · have nobody : threadsAt (ConsumerPc.Within number) before.consumers = 0 := by
        refine threadsAt_eq_zero _ fun thread within => ?_
        obtain ⟨index, uncounted, inside⟩ := Option.map_eq_some_iff.mp within
        have claimed := sound.index_lt uncounted
        simp only [blockSize] at start inside
        omega
      change (Function.update before.blocks block _ address).elementsCompletelyDequeued + threadsAt _ before.consumers =
        min blockSize (before.headIndex - number * blockSize)
      rw [same, Function.update_self, nobody, latest]
      dsimp only
      omega
    · refine (congrArg (·.elementsCompletelyDequeued + _) (Function.update_of_ne different _ before.blocks)).trans ?_
      exact sound.counts number address found
  · rw [State.home_producerAt]
    intro number address found full
    change (Function.update before.blocks block _ address).elementsCompletelyDequeued = blockSize at full
    rcases earlier found with ⟨latest, same⟩ | ⟨found, different⟩
    · rw [same, Function.update_self] at full
      cases full
    · rw [Function.update_of_ne different] at full
      exact sound.emptied number address found full

theorem getElem?_concat_of_ne {Item : Type} {items : List Item} {item : Item} {index : Nat}
    (different : index ≠ items.length) :
    (items ++ [item])[index]? = items[index]? := by
  rcases Nat.lt_or_gt_of_ne different with inside | beyond
  · exact List.getElem?_append_left inside
  · have long : (items ++ [item]).length ≤ index := by
      rw [List.length_append]
      exact beyond
    rw [List.getElem?_eq_none long, List.getElem?_eq_none (Nat.le_of_lt beyond)]

/-- The next element is constructed in its cell. -/
theorem Sound.constructIn (sound : Sound noexceptCtor before) {element : Element} {block : Address}
    (here : before.producer = old) (home : before.home (before.tailIndex / blockSize) = some block)
    (same : pc.block = old.block ∧ old.constructed noexceptCtor = none ∧ pc.constructed noexceptCtor = some element ∧
      pc.inserted = old.inserted)
    (knows : pc.Knows before.index before.started.length)
    (filled : pc.Filled noexceptCtor before.started.length before.enqueued.length) :
    Sound noexceptCtor (before.constructIn block element pc) := by
  obtain ⟨image, counted⟩ := sound.counted
  have behind := counted.head_le
  have former : before.constructed noexceptCtor = before.enqueued := by
    rw [State.constructed, here, same.2.1, Option.toList_none, List.append_nil]
  have waiting : ∀ {index}, before.Taken index → index ≠ before.tailIndex := by
    intro index gone
    have below := gone.1
    rw [counted.tailIndex]
    omega
  have free : (before.blocks block).elements (before.tailIndex % blockSize) = none := by
    have kept := sound.kept _ block home before.tailIndex rfl fun gone => waiting gone rfl
    rw [kept, former, counted.tailIndex]
    exact List.getElem?_eq_none (Nat.le_refl _)
  have has : before.owned (.inl (before.tailIndex / blockSize)) = some block := home
  have indexed := sound.indexed
  rw [here, ← same.2.2.2] at indexed
  have blocks : pc.block = before.home before.started.length := by
    rw [same.1, State.home, if_pos rfl, here]
  have homes : ((before.setCell block (before.tailIndex % blockSize) (some element)).producerAt pc).home =
      before.home := by
    rw [State.home_producerAt, blocks]
    exact Function.update_eq_self before.started.length before.home
  have apart : ∀ {number address index}, before.home number = some address → index / blockSize = number →
      address = block → index % blockSize = before.tailIndex % blockSize → index = before.tailIndex := by
    intro number address index found inside same equal
    have alike := sound.number (same ▸ found) home
    have whole := Nat.div_add_mod index blockSize
    rw [inside, alike, equal, Nat.div_add_mod] at whole
    exact whole.symm
  rw [State.constructIn, if_pos ⟨sound.owned.mem has, free⟩]
  refine ⟨sound.defined, ⟨image, { counted with }⟩, indexed, knows, filled, sound.tailBlock, ?_, sound.retired,
    fun thread => ?_, sound.alone, ?_, ?_, ?_, ?_⟩
  · rw [State.owned_producerAt, blocks]
    have kept : Function.update before.owned (.inl before.started.length) (before.home before.started.length) =
        before.owned := Function.update_eq_self (.inl before.started.length) before.owned
    exact kept.symm ▸ sound.owned
  · have grows : Grows before
        ((before.setCell block (before.tailIndex % blockSize) (some element)).producerAt pc)
          (before.consumers thread) :=
      grows_of_counts (fun _ _ => rfl) rfl rfl rfl rfl rfl fun _ _ second _ _ => State.setCell_count block second _ _
    exact grows.knows (sound.knows thread)
  · rw [homes]
    intro number address found index inside gone
    refine (State.setCell_other _ fun same equal => waiting gone (apart found inside same equal)).trans ?_
    exact sound.taken number address found index inside gone
  · rw [homes]
    intro number address found index inside stays
    change _ = (before.enqueued ++ (pc.constructed noexceptCtor).toList)[index]?
    rw [same.2.2.1]
    by_cases latest : index = before.tailIndex
    · rw [latest] at inside ⊢
      have alike : address = block := Option.some.inj (found.symm.trans (inside ▸ home))
      rw [alike, counted.tailIndex]
      exact (State.setCell_same block _ _).trans (List.getElem?_concat_length ..).symm
    · refine (State.setCell_other _ fun same equal => latest (apart found inside same equal)).trans ?_
      rw [sound.kept number address found index inside stays, former]
      exact (getElem?_concat_of_ne (counted.tailIndex ▸ latest)).symm
  · rw [homes]
    intro number address found
    exact (congrArg (· + _) (State.setCell_count block address _ _)).trans (sound.counts number address found)
  · rw [homes]
    intro number address found full
    exact sound.emptied number address found ((State.setCell_count block address _ _).symm.trans full)

omit [DecidableEq Thread] in
/-- The block that the thread has got is put into the index. -/
theorem Sound.publish (sound : Sound noexceptCtor before) {element : Element} {entry : Nat} {block : Address}
    (here : before.producer = .storeValue element entry block)
    (same : pc.block = none ∧ pc.constructed noexceptCtor = before.producer.constructed noexceptCtor ∧ pc.inserted = 0)
    (knows : ∀ ring started, ring.Settled started → pc.Knows ring started)
    (filled : pc.Filled noexceptCtor (before.started.length + 1) before.enqueued.length) :
    Sound noexceptCtor ({ before with
      index := before.index.storeValue entry (.block block)
      tailBlock := some block
      started := before.started ++ [block] }.producerAt pc) := by
  have start := sound.filled
  have indexed := sound.indexed
  have known := sound.produces
  rw [here] at start indexed known
  change before.enqueued.length = before.started.length * blockSize at start
  change entry = before.index.entryOf before.started.length at known
  have behind := sound.head_le
  have count : (before.started ++ [block]).length = before.started.length + 1 := List.length_append
  have fresh : before.started.length ∉ before.retired := by
    intro member
    have early := sound.retired _ member
    simp only [blockSize] at early start
    omega
  generalize next : ({ before with
      index := before.index.storeValue entry (.block block)
      tailBlock := some block
      started := before.started ++ [block] }.producerAt pc : State Thread Address Element) = after
  have live : after.live = Function.update before.live before.started.length (some block) := by
    subst next
    funext number
    by_cases latest : number = before.started.length
    · rw [latest, Function.update_self]
      exact (if_neg fresh).trans (List.getElem?_concat_length ..)
    · rw [Function.update_of_ne latest, State.live, State.live]
      exact congrArg (ite _ _) (getElem?_concat_of_ne latest)
  have home : after.home = before.home := by
    funext number
    have own : after.started.length = before.started.length + 1 ∧ after.producer.block = none := by
      subst next
      exact ⟨count, same.1⟩
    rw [State.home, State.home, own.1, own.2, live]
    by_cases latest : number = before.started.length
    · rw [latest, if_neg (Nat.ne_of_lt (Nat.lt_succ_self _)), Function.update_self, if_pos rfl, here]
      rfl
    · rw [Function.update_of_ne latest, if_neg latest]
      by_cases beyond : number = before.started.length + 1
      · rw [if_pos beyond, State.live, List.getElem?_eq_none (Nat.le_of_lt (beyond ▸ Nat.lt_succ_self _)), ite_self]
      · rw [if_neg beyond]
  have settled : (before.index.storeValue entry (.block block)).Settled (before.started.length + 1) := by
    intro keyed
    have few := indexed.keyed_le
    change before.index.keyed = _ at keyed
    omega
  obtain ⟨image, counted⟩ := sound.counted
  subst next
  refine ⟨sound.defined, ⟨image, { counted with }⟩, ?_, ?_, ?_, ?_, ?_, sound.retired, fun thread => ?_,
    sound.alone, ?_, ?_, ?_, ?_⟩
  · have published := indexed.publish block
    rw [← known, ← live, ← count] at published
    change Indexed _ _ ((before.started ++ [block]).length + pc.inserted) _
    rw [same.2.2]
    exact published
  · change pc.Knows _ (before.started ++ [block]).length
    rw [count]
    exact knows _ _ settled
  · change pc.Filled noexceptCtor (before.started ++ [block]).length before.enqueued.length
    rw [count]
    exact filled
  · exact List.getLast?_concat.symm
  · rw [State.owned, home]
    exact sound.owned
  · have grows : Grows before ({ before with
        index := before.index.storeValue entry (.block block)
        tailBlock := some block
        started := before.started ++ [block] }.producerAt pc) (before.consumers thread) := by
      refine ⟨fun number inside => ?_, fun _ _ => rfl, fun header number loaded => ?_, Nat.le_refl _,
        fun _ _ => ⟨Nat.le_refl _, rfl⟩, fun _ _ => id, fun _ _ _ _ _ => rfl⟩
      · obtain ⟨address, found⟩ := sound.inside_live inside
        rw [live, Function.update_of_ne (Nat.ne_of_lt (sound.indexed.live_lt number address found))]
      · refine ⟨loaded.1, Nat.lt_of_lt_of_le loaded.2 ?_⟩
        change _ ≤ if header = before.index.blockIndex then (before.started ++ [block]).length else _
        split
        · rw [count]
          exact Nat.le_succ _
        · exact Nat.le_refl _
    exact grows.knows (sound.knows thread)
  · rw [home]
    exact sound.taken
  · rw [home]
    change ∀ number address, _ → ∀ index, _ → _ → _ = (before.enqueued ++ (pc.constructed noexceptCtor).toList)[index]?
    rw [same.2.1]
    exact sound.kept
  · rw [home]
    exact sound.counts
  · rw [home]
    exact sound.emptied

omit [DecidableEq Thread] [DecidableEq Address] in
/-- The element that has been constructed is offered. -/
theorem Sound.storeTailIndex (sound : Sound noexceptCtor before) (few : before.enqueued.length < 2 ^ 62)
    {element : Element} (here : before.producer = .storeTailIndex element) :
    Sound noexceptCtor ({ before with
      tailIndex := uint64 (1 + before.tailIndex : Nat)
      enqueued := before.enqueued ++ [element] }.producerAt (.outside true)) := by
  have filled := sound.filled
  have known := sound.produces
  have indexed := sound.indexed
  rw [here] at filled known indexed
  obtain ⟨image, counted⟩ := sound.counted
  have count : (before.enqueued ++ [element]).length = before.enqueued.length + 1 := List.length_append
  have home : State.home ({ before with
      tailIndex := uint64 (1 + before.tailIndex : Nat)
      enqueued := before.enqueued ++ [element] }.producerAt (.outside true)) = before.home := by
    rw [State.home_producerAt]
    refine (Function.update_eq_self_iff ..).mpr ((if_pos rfl).trans ?_).symm
    change before.producer.block = none
    rw [here]
    rfl
  refine ⟨sound.defined, ⟨_, counted.sound.offer, ?_, counted.drawn, ?_, counted.headIndex,
    counted.dequeueOptimisticCount,
    counted.dequeueOvercommit, counted.places⟩, indexed, known, ?_, sound.tailBlock, ?_, sound.retired,
      fun thread => ?_, sound.alone, ?_, ?_, ?_, ?_⟩
  · exact (congrArg (· + 1) counted.tail).trans count.symm
  · change uint64 (1 + before.tailIndex : Nat) = (before.enqueued ++ [element]).length
    rw [Nat.add_comm, counted.tailIndex, uint64_succ (by omega), count]
  · change (before.enqueued ++ [element]).length ≤ _ ∧ _ < (before.enqueued ++ [element]).length + _
    rw [count]
    simp only [ProducerPc.Filled] at filled
    change before.enqueued.length + 1 ≤ before.started.length * blockSize ∧
      before.started.length * blockSize < before.enqueued.length + 1 + blockSize
    omega
  · rw [State.owned, home]
    exact sound.owned
  · have grows : Grows before ({ before with
        tailIndex := uint64 (1 + before.tailIndex : Nat)
        enqueued := before.enqueued ++ [element] }.producerAt (.outside true)) (before.consumers thread) := by
      refine ⟨fun _ _ => rfl, fun _ _ => rfl, fun _ _ => id, Nat.le_refl _, fun _ _ => ⟨Nat.le_refl _, rfl⟩,
        fun index other present => ?_, fun _ _ _ _ _ => rfl⟩
      obtain ⟨offered, _⟩ := List.getElem?_eq_some_iff.mp present
      exact (List.getElem?_append_left offered).trans present
    exact grows.knows (sound.knows thread)
  · rw [home]
    exact sound.taken
  · rw [home, State.constructed_producerAt rfl]
    have former : before.constructed noexceptCtor = before.enqueued ++ [element] := by
      rw [State.constructed, here]
      rfl
    exact former ▸ sound.kept
  · rw [home]
    exact sound.counts
  · rw [home]
    exact sound.emptied

/-- The thread that enqueues gives back the block that it could not use. -/
theorem Sound.abandon (sound : Sound noexceptCtor before) {block : Address}
    (here : before.producer = .addToFreeList block) :
    Sound noexceptCtor ((before.giveBack block).producerAt (.outside false)) := by
  have filled := sound.filled
  have known := sound.produces
  have indexed := sound.indexed
  rw [here] at filled known indexed
  change before.enqueued.length = before.started.length * blockSize at filled
  have has : before.owned (.inl before.started.length) = some block := by
    refine (if_pos rfl).trans ?_
    rw [here]
    rfl
  have home : State.home ({ before with held := before.held.erase block }.producerAt (.outside false)) =
      Function.update before.home before.started.length none := State.home_producerAt
  have kept : ∀ {number address}, Function.update before.home before.started.length none number = some address →
      before.home number = some address := by
    intro number address found
    obtain ⟨_, absent⟩ | ⟨_, found⟩ := update_eq_some found
    · cases absent
    · exact found
  have former : before.constructed noexceptCtor = before.enqueued := by
    rw [State.constructed, here]
    exact List.append_nil _
  obtain ⟨image, counted⟩ := sound.counted
  rw [State.giveBack, if_pos (sound.owned.mem has)]
  refine ⟨sound.defined, ⟨image, { counted with }⟩, indexed, known, ?_, sound.tailBlock, ?_, sound.retired, sound.knows,
    sound.alone, ?_, ?_, ?_, ?_⟩
  · change before.enqueued.length ≤ _ ∧ _ < before.enqueued.length + _
    rw [filled]
    exact ⟨Nat.le_refl _, Nat.lt_add_of_pos_right (by decide)⟩
  · rw [State.owned_producerAt]
    exact sound.owned.release has
  · rw [home]
    intro number address found
    exact sound.taken number address (kept found)
  · rw [home, State.constructed_producerAt rfl]
    intro number address found
    exact former ▸ sound.kept number address (kept found)
  · rw [home]
    intro number address found
    exact sound.counts number address (kept found)
  · rw [home]
    intro number address found
    exact sound.emptied number address (kept found)

/-! ## A step of the thread that enqueues -/

omit [DecidableEq Thread] [DecidableEq Address] in
theorem Sound.tailIndex (sound : Sound noexceptCtor before) : before.tailIndex = before.enqueued.length := by
  obtain ⟨image, counted⟩ := sound.counted
  exact counted.tailIndex

omit [DecidableEq Thread] in
/-- The thread that enqueues looks at the entry of the next block. -/
theorem Sound.loadEntry (sound : Sound noexceptCtor before) {element : Element}
    (here : before.producer = .loadEntry element) {outcome : Outcome Address}
    (moved : produce noexceptCtor before outcome = some after) :
    Sound noexceptCtor after := by
  have start := sound.filled
  have indexed := sound.indexed
  have known := sound.produces
  rw [here] at start indexed known
  simp only [produce, here] at moved
  split at moved
  · rename_i unused
    exact Option.some.inj moved ▸ sound.producerAt here ⟨rfl, rfl, rfl⟩ (.inl unused) start
  · rename_i used
    split at moved
    · rename_i null
      exact Option.some.inj moved ▸ sound.producerAt here ⟨rfl, rfl, rfl⟩ (.inr null) start
    · rename_i address taken
      exact Option.some.inj moved ▸ sound.producerAt here ⟨rfl, rfl, rfl⟩ (indexed.full taken) start
    · rename_i indeterminate
      exfalso
      rw [indexed.nextEntry_eq] at used indeterminate
      rcases indexed.written _ (position_lt indexed.current.positive _) indeterminate with unused | ⟨keyed, same⟩
      · exact used unused
      · rw [same, known keyed] at indeterminate
        cases indeterminate

omit [DecidableEq Thread] [DecidableEq Address] in
/-- The block that the next element goes to is the last one, and in the index. -/
theorem Sound.home_tail (sound : Sound noexceptCtor before) {element : Element}
    (here : before.producer = .construct element) :
    ∃ block, before.tailBlock = some block ∧ before.home (before.tailIndex / blockSize) = some block := by
  have filled := sound.filled
  rw [here] at filled
  obtain ⟨room, close, _⟩ := filled
  have behind := sound.head_le
  have number : before.tailIndex / blockSize = before.started.length - 1 := by
    rw [sound.tailIndex]
    simp only [blockSize] at room close ⊢
    omega
  have some : before.started.length - 1 < before.started.length := by
    simp only [blockSize] at room
    omega
  have present : before.started.length - 1 ∉ before.retired := by
    intro member
    have early := sound.retired _ member
    simp only [blockSize] at early room
    omega
  refine ⟨before.started[before.started.length - 1], ?_, ?_⟩
  · rw [sound.tailBlock, List.getLast?_eq_getElem?, List.getElem?_eq_getElem some]
  · rw [number, State.home, if_neg (Nat.ne_of_lt some), State.live, if_neg present, List.getElem?_eq_getElem some]

omit [DecidableEq Thread] in
/-- The thread that enqueues makes the index larger, or gives up. -/
theorem Sound.newBlockIndex (sound : Sound noexceptCtor before) {element : Element} {outcome : Outcome Address}
    (young : Young after) (here : before.producer = .newBlockIndex element)
    (moved : ImplicitProducer.produce noexceptCtor before outcome = some after) : Sound noexceptCtor after := by
  have start := sound.filled
  have indexed := sound.indexed
  have known := sound.produces
  rw [here] at start known indexed
  simp only [ImplicitProducer.produce, here] at moved
  split at moved
  · have bounded : before.started.length * blockSize < 2 ^ 63 := by
      have few := young.1
      rw [← Option.some.inj moved] at few
      rw [← start]
      exact Nat.lt_trans few (by decide)
    obtain ⟨grown, free⟩ := indexed.grow known bounded
    exact Option.some.inj moved ▸ sound.reindex here ⟨rfl, rfl⟩ grown indexed.extends_newBlockIndex free start
  · have room : before.started.length * blockSize < before.started.length * blockSize + blockSize :=
      Nat.lt_add_of_pos_right (by decide)
    refine Option.some.inj moved ▸ sound.producerAt here ⟨rfl, rfl, rfl⟩ (fun keyed => ?_) ⟨start.le, start ▸ room⟩
    have same := known.1
    omega

/-- The first element of a block is constructed, or its constructor throws. -/
theorem Sound.constructFirst (sound : Sound noexceptCtor before) {element : Element} {entry : Nat} {block : Address}
    {outcome : Outcome Address} (here : before.producer = .constructFirst element entry block)
    (moved : ImplicitProducer.produce noexceptCtor before outcome = some after) : Sound noexceptCtor after := by
  have start := sound.filled
  have known := sound.produces
  rw [here] at start known
  simp only [ImplicitProducer.produce, here] at moved
  split at moved
  · exact Option.some.inj moved ▸ sound.producerAt here ⟨rfl, rfl, rfl⟩ known start.1
  · have home : before.home (before.tailIndex / blockSize) = some block := by
      rw [sound.tailIndex, start.1, mul_blockSize_div, State.home, if_pos rfl, here]
      rfl
    refine Option.some.inj moved ▸ sound.constructIn here home ⟨rfl, rfl, ?_, rfl⟩ known start.1
    rw [start.2]
    rfl

omit [DecidableEq Thread] in
/-- The new block becomes the last one. -/
theorem Sound.storeValue (sound : Sound noexceptCtor before) {element : Element} {entry : Nat} {block : Address}
    {outcome : Outcome Address} (here : before.producer = .storeValue element entry block)
    (moved : ImplicitProducer.produce noexceptCtor before outcome = some after) : Sound noexceptCtor after := by
  have start := sound.filled
  rw [here] at start
  simp only [ImplicitProducer.produce, here, Option.some.injEq] at moved
  subst moved
  change before.enqueued.length = _ at start
  refine sound.publish here ?_ ?_ ?_
  · rw [here]
    cases noexceptCtor <;> exact ⟨rfl, rfl, rfl⟩
  · intro ring started settled
    cases noexceptCtor <;> exact settled
  · have close : (before.started.length + 1) * blockSize = before.enqueued.length + blockSize := by
      rw [start, Nat.add_mul, Nat.one_mul]
    have more : before.enqueued.length < (before.started.length + 1) * blockSize := by
      rw [close]
      exact Nat.lt_add_of_pos_right (by decide)
    cases noexceptCtor with
    | true => exact ⟨more, close.le, fun throwing => absurd throwing (by decide)⟩
    | false => exact ⟨more, close.le⟩

/-- An element is constructed in a block that has room, or its constructor throws. -/
theorem Sound.construct (sound : Sound noexceptCtor before) {element : Element} {outcome : Outcome Address}
    (here : before.producer = .construct element)
    (moved : ImplicitProducer.produce noexceptCtor before outcome = some after) : Sound noexceptCtor after := by
  have start := sound.filled
  have known := sound.produces
  rw [here] at start known
  obtain ⟨block, tailBlock, home⟩ := sound.home_tail here
  simp only [ImplicitProducer.produce, here, tailBlock] at moved
  split at moved
  · rename_i thrown
    exact Option.some.inj moved ▸ sound.producerAt here ⟨rfl, rfl, rfl⟩ known ⟨start.1.le, start.2.2 thrown.1⟩
  · exact Option.some.inj moved ▸ sound.constructIn here home ⟨rfl, rfl, rfl, rfl⟩ known ⟨start.1, start.2.1⟩

omit [DecidableEq Thread] in
/-- A block that could not be filled leaves the index again. -/
theorem Sound.clearPending (sound : Sound noexceptCtor before) {entry : Nat} {block : Option Address}
    {outcome : Outcome Address} (here : before.producer = .clearEntry entry block)
    (moved : ImplicitProducer.produce noexceptCtor before outcome = some after) : Sound noexceptCtor after := by
  have start := sound.filled
  have indexed := sound.indexed
  have known := sound.produces
  rw [here] at start known indexed
  obtain ⟨keyed, rfl⟩ := known
  simp only [ImplicitProducer.produce, here, Option.some.injEq] at moved
  subst moved
  have abandoned := indexed.abandon keyed
  cases block with
  | none =>
      have room : before.started.length * blockSize < before.started.length * blockSize + blockSize :=
        Nat.lt_add_of_pos_right (by decide)
      exact sound.reindex here ⟨rfl, rfl⟩ abandoned (extends_storeValue _ _ _) (fun _ => cleared _)
        ⟨start.le, start ▸ room⟩
  | some block => exact sound.reindex here ⟨rfl, rfl⟩ abandoned (extends_storeValue _ _ _) (fun _ => cleared _) start

theorem Sound.produce (sound : Sound noexceptCtor before) {outcome : Outcome Address} (young : Young after)
    (moved : produce noexceptCtor before outcome = some after) : Sound noexceptCtor after := by
  have start := sound.filled
  have indexed := sound.indexed
  have known := sound.produces
  cases here : before.producer with
  | outside result => simp only [ImplicitProducer.produce, here, reduceCtorEq] at moved
  | loadHead element =>
      rw [here] at start known
      simp only [ImplicitProducer.produce, here, Option.some.injEq] at moved
      subst moved
      split
      · exact sound.producerAt here ⟨rfl, rfl, rfl⟩ known start
      · have room : before.started.length * blockSize < before.started.length * blockSize + blockSize :=
          Nat.lt_add_of_pos_right (by decide)
        exact sound.producerAt here ⟨rfl, rfl, rfl⟩ known ⟨start.le, start ▸ room⟩
  | loadEntry element => exact sound.loadEntry here moved
  | newBlockIndex element => exact sound.newBlockIndex young here moved
  | storeKey element =>
      rw [here] at start known indexed
      simp only [ImplicitProducer.produce, here, Option.some.injEq] at moved
      subst moved
      have place := sound.tailIndex.trans start
      have stored := indexed.storeKey known
      have extend := indexed.extends_storeKey
      rw [← place] at stored extend
      refine sound.reindex here ⟨rfl, rfl⟩ stored extend ?_ start
      change before.tailIndex / blockSize + 1 = _
      rw [place, mul_blockSize_div]
  | storeTail element =>
      rw [here] at start known indexed
      simp only [ImplicitProducer.produce, here, Option.some.injEq] at moved
      subst moved
      refine sound.reindex here ⟨rfl, rfl⟩ (indexed.storeTail known) (extends_storeTail _ _) ?_ start
      exact indexed.nextEntry_eq.trans (indexed.pending known).1
  | requisitionBlock element entry =>
      rw [here] at start known
      simp only [ImplicitProducer.produce, here] at moved
      split at moved
      · exact Option.some.inj moved ▸ sound.producerAt here ⟨rfl, rfl, rfl⟩ known start
      · split at moved
        · cases moved
        · rename_i free
          cases noexceptCtor with
          | true => exact Option.some.inj moved ▸ sound.requisition here free ⟨rfl, rfl, rfl⟩ known start
          | false => exact Option.some.inj moved ▸ sound.requisition here free ⟨rfl, rfl, rfl⟩ known ⟨start, rfl⟩
  | constructFirst element entry block => exact sound.constructFirst here moved
  | storeValue element entry block => exact sound.storeValue here moved
  | construct element => exact sound.construct here moved
  | storeTailIndex element =>
      simp only [ImplicitProducer.produce, here, Option.some.injEq] at moved
      subst moved
      refine sound.storeTailIndex ?_ here
      have few := young.1
      change (before.enqueued ++ [element]).length < _ at few
      rw [List.length_append] at few
      exact Nat.lt_of_succ_lt few
  | rewind entry block =>
      rw [here] at start known indexed
      simp only [ImplicitProducer.produce, here, Option.some.injEq] at moved
      subst moved
      exact sound.reindex here ⟨rfl, rfl⟩ indexed.rewind (extends_storeTail _ _)
        ⟨Nat.le_antisymm indexed.keyed_le indexed.tailed_le, known⟩ start
  | clearEntry entry block => exact sound.clearPending here moved
  | addToFreeList block =>
      simp only [ImplicitProducer.produce, here, Option.some.injEq] at moved
      exact moved ▸ sound.abandon here

end Ndnperf.Cxx.ImplicitProducer

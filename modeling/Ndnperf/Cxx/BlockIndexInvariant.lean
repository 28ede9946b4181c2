import Ndnperf.Cxx.BlockIndex

namespace Ndnperf.Cxx.ImplicitProducer

open Library.Word

variable {Address : Type}

/-- The position before the entry of a block. -/
def BlockIndexHeader.Tail (header : BlockIndexHeader) (block : Nat) : Prop :=
  header.first ≤ block ∧ header.tail = (block - header.first + header.capacity - 1) % header.capacity

/-- A ring leads to the entries of the blocks that had one in it, from the first live one on. -/
structure Reads (index : BlockIndex Address) (live : Nat → Option Address) (header : BlockIndexHeader) : Prop where
  capacity : ∃ exponent ≤ 59, header.capacity = 2 ^ exponent
  keyed : header.keyed ≤ index.keyed
  first : ∀ block address, live block = some address → block < header.keyed → header.first ≤ block
  window : ∀ block address, live block = some address → block < header.keyed → header.keyed ≤ block + header.capacity
  entry : ∀ block address, live block = some address → ∀ later, block ≤ later → later < header.keyed →
    header.index (header.position later) = index.entryOf later

/-- The index while `started` blocks have been put into it and not all taken out
again: `live` are those still in it, and the tail of the ring in use stands
before the block `tailed`. -/
structure Indexed (index : BlockIndex Address) (started tailed : Nat) (live : Nat → Option Address) : Prop where
  started_le : started ≤ tailed
  tailed_le : tailed ≤ index.keyed
  keyed_le : index.keyed ≤ started + 1
  header_keyed : index.header.keyed = index.keyed
  next : index.nextBlockIndexCapacity = 2 * index.header.capacity
  tail : index.header.Tail tailed
  first : index.header.first ≤ started
  current : Reads index live index.header
  older : ∀ header < index.blockIndex, Reads index live (index.headers header) ∧
    (index.headers header).keyed ≤ started ∧ (index.headers header).Tail (index.headers header).keyed
  allocated : ∀ position < index.header.capacity, index.header.index position < index.allocated
  injective : ∀ position < index.header.capacity, ∀ other < index.header.capacity,
    index.header.index position = index.header.index other → position = other
  live_lt : ∀ block address, live block = some address → block < started
  live_entry : ∀ block address, live block = some address →
    index.entries (index.entryOf block) = ⟨block * blockSize, .block address⟩
  live_key : ∀ block address, live block = some address → ∀ later, block ≤ later → later < index.keyed →
    (index.entries (index.entryOf later)).key = later * blockSize
  owned : ∀ position < index.header.capacity, ∀ address,
    (index.entries (index.header.index position)).value = .block address →
      ∃ block, live block = some address ∧ index.header.index position = index.entryOf block
  written : ∀ position < index.header.capacity, (index.entries (index.header.index position)).value = .indeterminate →
    (index.entries (index.header.index position)).key = invalidBlockBase ∨
      (index.keyed = started + 1 ∧ index.header.index position = index.entryOf started)
  pending : index.keyed = started + 1 →
    index.header.index (index.header.position started) = index.entryOf started ∧
      (index.entries (index.entryOf started)).key = started * blockSize ∧
        ∀ address, (index.entries (index.entryOf started)).value ≠ .block address

variable {index : BlockIndex Address} {started tailed : Nat} {live : Nat → Option Address} {header : BlockIndexHeader}

theorem Reads.positive (reads : Reads index live header) : 0 < header.capacity := by
  obtain ⟨exponent, _, power⟩ := reads.capacity
  rw [power]
  exact Nat.two_pow_pos exponent

theorem initial_tail : uint64 (0 - 1) &&& (implicitInitialIndexSize - 1) =
    (0 - 0 + implicitInitialIndexSize - 1) % implicitInitialIndexSize := by
  decide

theorem initial_indexed : Indexed (BlockIndex.initial : BlockIndex Address) 0 0 fun _ => none where
  started_le := Nat.le_refl _
  tailed_le := Nat.le_refl _
  keyed_le := Nat.zero_le _
  header_keyed := rfl
  next := rfl
  tail := ⟨Nat.le_refl _, initial_tail⟩
  first := Nat.le_refl _
  current := ⟨⟨5, by decide, rfl⟩, Nat.le_refl _, nofun, nofun, nofun⟩
  older := nofun
  allocated _ inside := inside
  injective _ _ _ _ same := same
  live_lt := nofun
  live_entry := nofun
  live_key := nofun
  owned := nofun
  written _ _ _ := .inl rfl
  pending := nofun

/-! ## Looking a block up -/

theorem BlockIndexHeader.Tail.position {block : Nat} (tail : header.Tail (block + 1)) (started : header.first ≤ block) :
    header.tail = header.position block := by
  have shifted : block + 1 - header.first + header.capacity - 1 = block - header.first + header.capacity := by omega
  rw [tail.2, shifted, Nat.add_mod_right]
  rfl

/-- The ring that a thread has loaded after the block was started. -/
def Loaded (index : BlockIndex Address) (started header block : Nat) : Prop :=
  header ≤ index.blockIndex ∧ block < if header = index.blockIndex then started else (index.headers header).keyed

theorem Indexed.reads (indexed : Indexed index started tailed live) {ring : Nat} (known : ring ≤ index.blockIndex) :
    Reads index live (index.headers ring) := by
  rcases Nat.eq_or_lt_of_le known with same | older
  · rw [same]
    exact indexed.current
  · exact (indexed.older ring older).1

/-- The tail that a thread reads stands at the block or at a later one. -/
theorem Indexed.tail_position (indexed : Indexed index started tailed live) {ring block : Nat} {address : Address}
    (found : live block = some address) (loaded : Loaded index started ring block) :
    ∃ later, block ≤ later ∧ later < (index.headers ring).keyed ∧
      (index.headers ring).tail = (index.headers ring).position later := by
  obtain ⟨known, below⟩ := loaded
  have tail : ∃ count, block < count ∧ count ≤ (index.headers ring).keyed ∧ (index.headers ring).Tail count := by
    rcases Nat.eq_or_lt_of_le known with same | older
    · rw [if_pos same] at below
      rw [same]
      exact ⟨tailed, Nat.lt_of_lt_of_le below indexed.started_le, indexed.header_keyed ▸ indexed.tailed_le,
        indexed.tail⟩
    · rw [if_neg (Nat.ne_of_lt older)] at below
      exact ⟨_, below, Nat.le_refl _, (indexed.older ring older).2.2⟩
  obtain ⟨count, later, within, tail⟩ := tail
  obtain ⟨last, rfl⟩ : ∃ last, count = last + 1 := ⟨count - 1, by omega⟩
  have first := (indexed.reads known).first block address found (Nat.lt_of_lt_of_le later within)
  exact ⟨last, Nat.le_of_lt_succ later, within, tail.position (Nat.le_trans first (Nat.le_of_lt_succ later))⟩

/-- What a thread then reads as the base of the tail, and where that leads it. -/
theorem Indexed.lookup (indexed : Indexed index started tailed live) {ring block later element : Nat}
    {address : Address} (found : live block = some address) (known : ring ≤ index.blockIndex)
    (ordered : block ≤ later) (within : later < (index.headers ring).keyed) (inside : element / blockSize = block)
    (bounded : started * blockSize < 2 ^ 63) :
    (index.headers ring).index (positionFor (index.headers ring) ((index.headers ring).position later)
      (index.entries ((index.headers ring).index ((index.headers ring).position later))).key element) =
        index.entryOf block := by
  have reads := indexed.reads known
  obtain ⟨exponent, small, power⟩ := reads.capacity
  have keyed := reads.keyed
  have few := indexed.keyed_le
  have base : (index.entries (index.entryOf later)).key = later * blockSize :=
    indexed.live_key block address found later ordered (Nat.lt_of_lt_of_le within keyed)
  have below : block < (index.headers ring).keyed := Nat.lt_of_le_of_lt ordered within
  have bounded : later * blockSize < 2 ^ 63 :=
    Nat.lt_of_le_of_lt (Nat.mul_le_mul_right _ (by omega)) bounded
  rw [reads.entry block address found later ordered within, base,
    positionFor_eq small power (reads.first block address found below) ordered inside bounded]
  exact reads.entry block address found block (Nat.le_refl _) below

/-! ## What the producer does to the index -/

theorem BlockIndexHeader.Tail.next {block exponent : Nat} (tail : header.Tail block)
    (power : header.capacity = 2 ^ exponent) :
    (header.tail + 1) &&& (header.capacity - 1) = header.position block := by
  have positive : 0 < header.capacity := power ▸ Nat.two_pow_pos exponent
  have shifted : block - header.first + header.capacity - 1 + 1 = block - header.first + header.capacity := by omega
  rw [land_eq_mod power, tail.2, Nat.mod_add_mod, shifted, Nat.add_mod_right]
  rfl

/-- The next entry is at the position of the block that is started next. -/
theorem Indexed.nextEntry_eq (indexed : Indexed index started started live) :
    index.nextEntry = index.header.index (index.header.position started) := by
  obtain ⟨exponent, _, power⟩ := indexed.current.capacity
  rw [BlockIndex.nextEntry, BlockIndex.newTail, indexed.tail.next power]

/-- The entry can be taken for a new block. -/
def BlockIndexEntry.Reusable (entry : BlockIndexEntry Address) : Prop :=
  entry.key = invalidBlockBase ∨ entry.value = .null

theorem Indexed.ne_of_reusable (indexed : Indexed index started tailed live) {block entry : Nat} {address : Address}
    (found : live block = some address) (free : (index.entries entry).Reusable) : index.entryOf block ≠ entry := by
  intro same
  rw [← same] at free
  rw [indexed.live_entry block address found] at free
  rcases free with key | value
  · simp only [invalidBlockBase, blockSize] at key
    omega
  · cases value

/-- A live block leaves its position to itself. -/
theorem Indexed.room (indexed : Indexed index started started live) {block : Nat} {address : Address}
    (found : live block = some address) (free : (index.entries index.nextEntry).Reusable) :
    started + 1 ≤ block + index.header.capacity := by
  have below := indexed.live_lt block address found
  have keyed : block < index.header.keyed :=
    indexed.header_keyed ▸ Nat.lt_of_lt_of_le below indexed.tailed_le
  have window := indexed.current.window block address found keyed
  have least := indexed.tailed_le
  rw [indexed.header_keyed] at window
  by_contra full
  have wrapped : started = block + index.header.capacity := by omega
  have first := indexed.current.first block address found keyed
  have same : index.header.position started = index.header.position block := by
    have shifted : block + index.header.capacity - index.header.first =
        block - index.header.first + index.header.capacity := by omega
    rw [BlockIndexHeader.position, wrapped, shifted, Nat.add_mod_right]
    rfl
  have entry := indexed.current.entry block address found block (Nat.le_refl _) keyed
  rw [← same, ← indexed.nextEntry_eq] at entry
  exact indexed.ne_of_reusable found free entry.symm

theorem mul_blockSize_div (block : Nat) : block * blockSize / blockSize = block :=
  Nat.mul_div_cancel block (by decide)

/-- Blocks that are less than a turn apart are at different positions. -/
theorem position_ne {block later : Nat} (first : header.first ≤ block) (before : block < later)
    (near : later < block + header.capacity) : header.position block ≠ header.position later := by
  intro same
  have apart : block - header.first ≡ later - header.first [MOD header.capacity] := same
  have divides := (Nat.modEq_iff_dvd' (Nat.sub_le_sub_right before.le header.first)).mp apart
  have distance := Nat.le_of_dvd (by omega) divides
  omega

/-- `insert_block_index_entry` gives the next block an entry that holds no live one. -/
theorem Indexed.storeKey (indexed : Indexed index started started live)
    (free : (index.entries index.nextEntry).Reusable) :
    Indexed (index.storeKey (started * blockSize)) started started live := by
  have place := indexed.nextEntry_eq
  have others := fun block address (found : live block = some address) => indexed.ne_of_reusable found free
  have room := fun block address (found : live block = some address) => indexed.room found free
  have position := position_lt indexed.current.positive started
  have keyed : ∀ later, later < started → later < index.header.keyed :=
    fun later below => indexed.header_keyed ▸ Nat.lt_of_lt_of_le below indexed.tailed_le
  have apart : ∀ block address, live block = some address → ∀ later, block ≤ later → later < started →
      index.entryOf later ≠ index.nextEntry := by
    intro block address found later ordered below same
    have first := indexed.current.first block address found (keyed block (Nat.lt_of_le_of_lt ordered below))
    rw [← indexed.current.entry block address found later ordered (keyed later below), place] at same
    have near := room block address found
    exact position_ne (Nat.le_trans first ordered) below (by omega)
      (indexed.injective _ (position_lt indexed.current.positive later) _ position same)
  have earlier : ∀ block, block < started →
      Function.update index.entryOf started index.nextEntry block = index.entryOf block :=
    fun block below => Function.update_of_ne (Nat.ne_of_lt below) _ _
  have value : ∀ entry, ((index.storeKey (started * blockSize)).entries entry).value = (index.entries entry).value := by
    intro entry
    simp only [BlockIndex.storeKey, Function.update_apply]
    split
    · rename_i same
      rw [same]
    · rfl
  have unowned : ∀ address, (index.entries index.nextEntry).value ≠ .block address := by
    intro address same
    rw [place] at same
    obtain ⟨block, found, owner⟩ := indexed.owned _ position address same
    exact others block address found (owner ▸ place.symm)
  have header : (index.storeKey (started * blockSize)).header = { index.header with keyed := started + 1 } := by
    simp only [BlockIndex.header, BlockIndex.storeKey, Function.update_self, mul_blockSize_div]
  have entryOf : (index.storeKey (started * blockSize)).entryOf =
      Function.update index.entryOf started index.nextEntry := by
    simp only [BlockIndex.storeKey, mul_blockSize_div]
  have entries : ∀ entry, entry ≠ index.nextEntry →
      (index.storeKey (started * blockSize)).entries entry = index.entries entry :=
    fun entry different => Function.update_of_ne different _ _
  have fresh : ((index.storeKey (started * blockSize)).entries index.nextEntry).key = started * blockSize := by
    simp only [BlockIndex.storeKey, Function.update_self]
  have all : (index.storeKey (started * blockSize)).keyed = started + 1 := by
    simp only [BlockIndex.storeKey, mul_blockSize_div]
  refine ⟨Nat.le_refl _, ?_, ?_, ?_, ?_, ?_, ?_, ?_, ?_, ?_, ?_, indexed.live_lt, ?_, ?_, ?_, ?_, ?_⟩
  · rw [all]
    exact Nat.le_succ _
  · rw [all]
  · rw [header, all]
  · rw [header]
    exact indexed.next
  · rw [header]
    exact indexed.tail
  · rw [header]
    exact indexed.first
  · rw [header]
    refine ⟨indexed.current.capacity, all.ge, ?_, ?_, ?_⟩
    · intro block address found _
      exact indexed.current.first block address found (keyed block (indexed.live_lt block address found))
    · intro block address found _
      exact room block address found
    · intro block address found later ordered within
      rw [entryOf]
      rcases Nat.eq_or_lt_of_le (Nat.le_of_lt_succ within) with rfl | below
      · rw [Function.update_self]
        exact place.symm
      · rw [earlier later below]
        exact indexed.current.entry block address found later ordered (keyed later below)
  · intro ring older
    have same : (index.storeKey (started * blockSize)).headers ring = index.headers ring :=
      Function.update_of_ne (Nat.ne_of_lt older) _ _
    rw [same]
    obtain ⟨reads, started_le, tail⟩ := indexed.older ring older
    refine ⟨⟨reads.capacity, ?_, reads.first, reads.window, ?_⟩, started_le, tail⟩
    · rw [all]
      exact Nat.le_succ_of_le started_le
    · intro block address found later ordered within
      rw [entryOf, earlier later (Nat.lt_of_lt_of_le within started_le)]
      exact reads.entry block address found later ordered within
  · rw [header]
    exact indexed.allocated
  · rw [header]
    exact indexed.injective
  · intro block address found
    have below := indexed.live_lt block address found
    rw [entryOf, earlier block below, entries _ (others block address found)]
    exact indexed.live_entry block address found
  · intro block address found later ordered within
    rw [all] at within
    rw [entryOf]
    rcases Nat.eq_or_lt_of_le (Nat.le_of_lt_succ within) with rfl | below
    · rw [Function.update_self, fresh]
    · rw [earlier later below, entries _ (apart block address found later ordered below)]
      exact indexed.live_key block address found later ordered (Nat.lt_of_lt_of_le below indexed.tailed_le)
  · rw [header]
    intro ring inside address same
    rw [value] at same
    obtain ⟨block, found, owner⟩ := indexed.owned ring inside address same
    refine ⟨block, found, ?_⟩
    rw [entryOf, earlier block (indexed.live_lt block address found)]
    exact owner
  · rw [header]
    intro ring inside same
    rw [value] at same
    by_cases taken : index.header.index ring = index.nextEntry
    · rw [all, entryOf, Function.update_self]
      exact .inr ⟨rfl, taken⟩
    · left
      dsimp only
      rw [entries _ taken]
      refine (indexed.written ring inside same).resolve_right fun waiting => taken ?_
      rw [waiting.2, ← (indexed.pending waiting.1).1]
      exact place.symm
  · intro _
    rw [header, entryOf, Function.update_self, fresh]
    exact ⟨place.symm, rfl, fun address => value index.nextEntry ▸ unowned address⟩

theorem Indexed.retail (indexed : Indexed index started tailed live) {tail next : Nat} (started_le : started ≤ next)
    (tailed_le : next ≤ index.keyed)
    (stands : ({ index.header with tail } : BlockIndexHeader).Tail next) :
    Indexed (index.storeTail tail) started next live := by
  have header : (index.storeTail tail).header = { index.header with tail } := by
    simp only [BlockIndex.header, BlockIndex.storeTail, Function.update_self]
  have current := indexed.current
  refine { indexed with
    started_le, tailed_le, header_keyed := ?_, next := ?_, tail := ?_, first := ?_, current := ?_, older := ?_
    allocated := ?_, injective := ?_, owned := ?_, written := ?_, pending := ?_ }
  · rw [header]
    exact indexed.header_keyed
  · rw [header]
    exact indexed.next
  · rw [header]
    exact stands
  · rw [header]
    exact indexed.first
  · rw [header]
    exact ⟨current.capacity, current.keyed, current.first, current.window, current.entry⟩
  · intro ring older
    have same : (index.storeTail tail).headers ring = index.headers ring :=
      Function.update_of_ne (Nat.ne_of_lt older) _ _
    rw [same]
    obtain ⟨reads, others⟩ := indexed.older ring older
    exact ⟨⟨reads.capacity, reads.keyed, reads.first, reads.window, reads.entry⟩, others⟩
  · rw [header]
    exact indexed.allocated
  · rw [header]
    exact indexed.injective
  · rw [header]
    exact indexed.owned
  · rw [header]
    exact indexed.written
  · rw [header]
    exact indexed.pending

theorem Indexed.storeTail (indexed : Indexed index started started live) (keyed : index.keyed = started + 1) :
    Indexed (index.storeTail index.newTail) started (started + 1) live := by
  obtain ⟨exponent, _, power⟩ := indexed.current.capacity
  refine indexed.retail (Nat.le_succ _) keyed.ge ⟨Nat.le_succ_of_le indexed.first, ?_⟩
  have first := indexed.first
  have shifted : started + 1 - index.header.first + index.header.capacity - 1 =
      started - index.header.first + index.header.capacity := by omega
  rw [shifted, Nat.add_mod_right]
  exact indexed.tail.next power

/-- One position back, across the word and around the ring. -/
theorem land_pred {capacity exponent value : Nat} (small : exponent ≤ 64) (power : capacity = 2 ^ exponent) :
    uint64 ((value % capacity : Nat) - 1) &&& (capacity - 1) = (value + capacity - 1) % capacity := by
  have positive : 0 < capacity := power ▸ Nat.two_pow_pos exponent
  have turns : 2 ^ 64 = capacity * 2 ^ (64 - exponent) := by rw [power, ← Nat.pow_add, Nat.add_sub_cancel' small]
  have word : uint64 ((value % capacity : Nat) - 1) = (value % capacity + 2 ^ 64 - 1) % 2 ^ 64 := by
    simp only [uint64]
    omega
  rw [land_eq_mod power, word, Nat.mod_mod_of_dvd _ (Dvd.intro _ turns.symm), turns]
  refine Nat.ModEq.add_right_cancel' 1 ?_
  calc value % capacity + capacity * 2 ^ (64 - exponent) - 1 + 1
      = value % capacity + capacity * 2 ^ (64 - exponent) := by
        have room := Nat.mul_pos positive (Nat.two_pow_pos (64 - exponent))
        omega
    _ ≡ value [MOD capacity] := by rw [Nat.ModEq, Nat.add_mul_mod_self_left, Nat.mod_mod]
    _ ≡ value + capacity [MOD capacity] := by rw [Nat.ModEq, Nat.add_mod_right]
    _ = value + capacity - 1 + 1 := by omega

/-- `rewind_block_index_tail` undoes the insertion of an entry. -/
theorem Indexed.rewind (indexed : Indexed index started (started + 1) live) :
    Indexed index.rewindBlockIndexTail started started live := by
  obtain ⟨exponent, small, power⟩ := indexed.current.capacity
  refine indexed.retail (Nat.le_refl _) (Nat.le_trans (Nat.le_succ _) indexed.tailed_le) ⟨indexed.first, ?_⟩
  rw [indexed.tail.position indexed.first]
  exact land_pred (Nat.le_trans small (by decide)) power

theorem storeValue_key (entry other : Nat) (value : BlockPointer Address) :
    ((index.storeValue entry value).entries other).key = (index.entries other).key := by
  simp only [BlockIndex.storeValue, Function.update_apply]
  split
  · rename_i same
    rw [same]
  · rfl

theorem storeValue_same (entry : Nat) (value : BlockPointer Address) :
    (index.storeValue entry value).entries entry = { index.entries entry with value } :=
  Function.update_self entry _ _

theorem storeValue_other {entry other : Nat} (different : other ≠ entry) (value : BlockPointer Address) :
    (index.storeValue entry value).entries other = index.entries other :=
  Function.update_of_ne different _ _

theorem Indexed.ne_pending (indexed : Indexed index started tailed live) (keyed : index.keyed = started + 1)
    {block : Nat} {address : Address} (found : live block = some address) :
    index.entryOf block ≠ index.entryOf started := by
  intro same
  have entry := indexed.live_entry block address found
  rw [same] at entry
  exact (indexed.pending keyed).2.2 address (congrArg BlockIndexEntry.value entry)

theorem Indexed.ne_of_live (indexed : Indexed index started tailed live) {block other : Nat} {address second : Address}
    (found : live block = some address) (also : live other = some second) (different : block ≠ other) :
    index.entryOf block ≠ index.entryOf other := by
  intro same
  have entry := indexed.live_entry block address found
  rw [same, indexed.live_entry other second also] at entry
  have keys := congrArg BlockIndexEntry.key entry
  simp only [blockSize] at keys
  omega

/-- The new block is put into its entry. -/
theorem Indexed.publish (indexed : Indexed index started (started + 1) live) (address : Address) :
    Indexed (index.storeValue (index.entryOf started) (.block address)) (started + 1) (started + 1)
      (Function.update live started (some address)) := by
  have keyed : index.keyed = started + 1 := Nat.le_antisymm indexed.keyed_le indexed.tailed_le
  obtain ⟨place, key, unowned⟩ := indexed.pending keyed
  have old : ∀ block, ∀ other, block ≠ started → Function.update live started (some address) block = some other →
      live block = some other := by
    intro block other different found
    rwa [Function.update_of_ne different] at found
  have positive := indexed.current.positive
  have header : (index.storeValue (index.entryOf started) (.block address)).header = index.header := rfl
  refine ⟨Nat.le_refl _, indexed.tailed_le, Nat.le_succ_of_le indexed.keyed_le, indexed.header_keyed, indexed.next,
    indexed.tail, Nat.le_succ_of_le indexed.first, ?_, ?_, indexed.allocated, indexed.injective, ?_, ?_, ?_, ?_, ?_, ?_⟩
  · refine ⟨indexed.current.capacity, indexed.current.keyed, ?_, ?_, ?_⟩
    · intro block other found within
      by_cases latest : block = started
      · exact latest ▸ indexed.first
      · exact indexed.current.first block other (old block other latest found) within
    · intro block other found within
      by_cases latest : block = started
      · rw [header, indexed.header_keyed, keyed, latest]
        omega
      · exact indexed.current.window block other (old block other latest found) within
    · intro block other found later ordered within
      by_cases latest : block = started
      · rw [header, indexed.header_keyed, keyed] at within
        have same : later = started := by omega
        rw [same]
        exact place
      · exact indexed.current.entry block other (old block other latest found) later ordered within
  · intro ring older
    obtain ⟨reads, below, tail⟩ := indexed.older ring older
    have earlier : ∀ block, block < (index.headers ring).keyed → block ≠ started :=
      fun block within => Nat.ne_of_lt (Nat.lt_of_lt_of_le within below)
    refine ⟨⟨reads.capacity, reads.keyed, ?_, ?_, ?_⟩, Nat.le_succ_of_le below, tail⟩
    · intro block other found within
      exact reads.first block other (old block other (earlier block within) found) within
    · intro block other found within
      exact reads.window block other (old block other (earlier block within) found) within
    · intro block other found later ordered within
      exact reads.entry block other (old block other (earlier block (Nat.lt_of_le_of_lt ordered within)) found)
        later ordered within
  · intro block other found
    by_cases latest : block = started
    · exact latest ▸ Nat.lt_succ_self _
    · exact Nat.lt_succ_of_lt (indexed.live_lt block other (old block other latest found))
  · intro block other found
    by_cases latest : block = started
    · subst latest
      rw [Function.update_self, Option.some.injEq] at found
      rw [← found]
      exact (storeValue_same _ _).trans (congrArg (BlockIndexEntry.mk · _) key)
    · have found := old block other latest found
      exact (storeValue_other (indexed.ne_pending keyed found) _).trans (indexed.live_entry block other found)
  · intro block other found later ordered within
    rw [storeValue_key]
    by_cases latest : block = started
    · have same : later = started := by
        change later < index.keyed at within
        omega
      rw [same]
      exact key
    · exact indexed.live_key block other (old block other latest found) later ordered within
  · intro position inside other same
    by_cases taken : index.header.index position = index.entryOf started
    · refine ⟨started, ?_, taken⟩
      rw [header, taken, storeValue_same] at same
      rw [Function.update_self, BlockPointer.block.inj same]
    · rw [header, storeValue_other taken] at same
      obtain ⟨block, found, owner⟩ := indexed.owned position inside other same
      have different : block ≠ started := Nat.ne_of_lt (indexed.live_lt block other found)
      exact ⟨block, (Function.update_of_ne different _ _).trans found, owner⟩
  · intro position inside same
    left
    by_cases taken : index.header.index position = index.entryOf started
    · rw [header, taken, storeValue_same] at same
      cases same
    · rw [header, storeValue_other taken] at same ⊢
      exact (indexed.written position inside same).resolve_right fun waiting => taken waiting.2
  · intro more
    change index.keyed = started + 1 + 1 at more
    omega

/-- A block whose elements have all been taken leaves the index. -/
theorem Indexed.clear (indexed : Indexed index started tailed live) {block : Nat} {address : Address}
    (found : live block = some address) :
    Indexed (index.storeValue (index.entryOf block) .null) started tailed (Function.update live block none) := by
  have old : ∀ other second, Function.update live block none other = some second → other ≠ block ∧
      live other = some second := by
    intro other second also
    by_cases same : other = block
    · rw [same, Function.update_self] at also
      cases also
    · rw [Function.update_of_ne same] at also
      exact ⟨same, also⟩
  have reads : ∀ {header}, Reads index live header →
      Reads (index.storeValue (index.entryOf block) .null) (Function.update live block none) header := by
    intro header reads
    exact ⟨reads.capacity, reads.keyed, fun other second also => reads.first other second (old other second also).2,
      fun other second also => reads.window other second (old other second also).2,
      fun other second also => reads.entry other second (old other second also).2⟩
  have header : (index.storeValue (index.entryOf block) .null).header = index.header := rfl
  refine ⟨indexed.started_le, indexed.tailed_le, indexed.keyed_le, indexed.header_keyed, indexed.next, indexed.tail,
    indexed.first, reads indexed.current, ?_, indexed.allocated, indexed.injective, ?_, ?_, ?_, ?_, ?_, ?_⟩
  · intro ring older
    obtain ⟨others, rest⟩ := indexed.older ring older
    exact ⟨reads others, rest⟩
  · intro other second also
    exact indexed.live_lt other second (old other second also).2
  · intro other second also
    obtain ⟨different, also⟩ := old other second also
    exact (storeValue_other (indexed.ne_of_live also found different) _).trans (indexed.live_entry other second also)
  · intro other second also later ordered within
    rw [storeValue_key]
    exact indexed.live_key other second (old other second also).2 later ordered within
  · intro position inside second same
    by_cases taken : index.header.index position = index.entryOf block
    · rw [header, taken, storeValue_same] at same
      cases same
    · rw [header, storeValue_other taken] at same
      obtain ⟨other, also, owner⟩ := indexed.owned position inside second same
      have different : other ≠ block := by
        intro equal
        exact taken (equal ▸ owner)
      exact ⟨other, (Function.update_of_ne different _ _).trans also, owner⟩
  · intro position inside same
    by_cases taken : index.header.index position = index.entryOf block
    · rw [header, taken, storeValue_same] at same
      cases same
    · rw [header, storeValue_other taken] at same ⊢
      exact indexed.written position inside same
  · intro keyed
    obtain ⟨place, key, unowned⟩ := indexed.pending keyed
    have different : index.entryOf started ≠ index.entryOf block := (indexed.ne_pending keyed found).symm
    have same : (index.storeValue (index.entryOf block) .null).entries (index.entryOf started) =
        index.entries (index.entryOf started) := storeValue_other different _
    refine ⟨place, (storeValue_key _ _ _).trans key, fun second equal => unowned second ?_⟩
    exact (congrArg BlockIndexEntry.value same).symm.trans equal

/-- The entry of a block that could not be had is given up. -/
theorem Indexed.abandon (indexed : Indexed index started tailed live) (keyed : index.keyed = started + 1) :
    Indexed (index.storeValue (index.entryOf started) .null) started tailed live := by
  obtain ⟨place, key, unowned⟩ := indexed.pending keyed
  have reads : ∀ {header}, Reads index live header →
      Reads (index.storeValue (index.entryOf started) .null) live header := by
    intro header reads
    exact ⟨reads.capacity, reads.keyed, reads.first, reads.window, reads.entry⟩
  have header : (index.storeValue (index.entryOf started) .null).header = index.header := rfl
  refine ⟨indexed.started_le, indexed.tailed_le, indexed.keyed_le, indexed.header_keyed, indexed.next, indexed.tail,
    indexed.first, reads indexed.current, ?_, indexed.allocated, indexed.injective, indexed.live_lt, ?_, ?_, ?_, ?_, ?_⟩
  · intro ring older
    obtain ⟨others, rest⟩ := indexed.older ring older
    exact ⟨reads others, rest⟩
  · intro other second also
    exact (storeValue_other (indexed.ne_pending keyed also) _).trans (indexed.live_entry other second also)
  · intro other second also later ordered within
    rw [storeValue_key]
    exact indexed.live_key other second also later ordered within
  · intro position inside second same
    by_cases taken : index.header.index position = index.entryOf started
    · rw [header, taken, storeValue_same] at same
      cases same
    · rw [header, storeValue_other taken] at same
      exact indexed.owned position inside second same
  · intro position inside same
    by_cases taken : index.header.index position = index.entryOf started
    · rw [header, taken, storeValue_same] at same
      cases same
    · rw [header, storeValue_other taken] at same ⊢
      exact indexed.written position inside same
  · intro _
    have cleared : (index.storeValue (index.entryOf started) .null).entries (index.entryOf started) =
        { index.entries (index.entryOf started) with value := .null } := storeValue_same _ _
    refine ⟨place, (storeValue_key _ _ _).trans key, fun second equal => ?_⟩
    cases (congrArg BlockIndexEntry.value cleared).symm.trans equal

/-! ## A full ring is replaced -/

theorem prevPos_eq {block exponent : Nat} (tail : header.Tail block) (power : header.capacity = 2 ^ exponent)
    (i : Nat) :
    BlockIndex.prevPos header i = (header.position block + i) % header.capacity := by
  have positive : 0 < header.capacity := power ▸ Nat.two_pow_pos exponent
  induction i with
  | zero =>
      rw [BlockIndex.prevPos, tail.next power, Nat.add_zero, Nat.mod_eq_of_lt (position_lt positive block)]
  | succ i ih => rw [BlockIndex.prevPos, ih, land_eq_mod power, Nat.mod_add_mod, Nat.add_assoc]

/-- The ring has gone round at least once, up to the block that is started next. -/
def BlockIndex.Full (index : BlockIndex Address) (started : Nat) : Prop :=
  index.keyed = started ∧ index.header.first + index.header.capacity ≤ started

/-- Where the next entry still has a block, the ring is full. -/
theorem Indexed.full (indexed : Indexed index started started live) {address : Address}
    (taken : (index.entries index.nextEntry).value = .block address) : index.Full started := by
  have place := indexed.nextEntry_eq
  rw [place] at taken
  obtain ⟨block, found, owner⟩ := indexed.owned _ (position_lt indexed.current.positive started) address taken
  have below := indexed.live_lt block address found
  have keyed : index.keyed = started := by
    by_contra more
    have waiting : index.keyed = started + 1 := by
      have least := indexed.tailed_le
      have most := indexed.keyed_le
      omega
    have entry := (indexed.pending waiting).1
    rw [entry] at taken
    exact (indexed.pending waiting).2.2 address taken
  have within : block < index.header.keyed := by
    rw [indexed.header_keyed, keyed]
    exact below
  have first := indexed.current.first block address found within
  refine ⟨keyed, ?_⟩
  by_contra short
  rw [← indexed.current.entry block address found block (Nat.le_refl _) within] at owner
  exact position_ne first below (by omega)
    (indexed.injective _ (position_lt indexed.current.positive started) _ (position_lt indexed.current.positive block)
      owner).symm

/-- The ring that replaces a full one. -/
structure Replaces (index : BlockIndex Address) (oldest : Nat) (header : BlockIndexHeader) : Prop where
  capacity : header.capacity = 2 * index.header.capacity
  tail : header.tail = index.header.capacity - 1
  first : header.first = oldest
  keyed : header.keyed = index.keyed
  old : ∀ i < index.header.capacity, header.index i = index.header.index (index.header.position (oldest + i))
  new : ∀ i, index.header.capacity ≤ i → header.index i = index.allocated + (i - index.header.capacity)

theorem Indexed.replaces (indexed : Indexed index started started live) {oldest exponent : Nat}
    (first : index.header.first ≤ oldest) (turn : started = oldest + index.header.capacity)
    (keyed : index.keyed = started) (power : index.header.capacity = 2 ^ exponent) (small : exponent < 59) :
    Replaces index oldest index.newBlockIndex.header := by
  have positive := indexed.current.positive
  have large : 2 ^ exponent ≤ 2 ^ 58 := Nat.pow_le_pow_right (by decide) (by omega)
  have double : index.nextBlockIndexCapacity = 2 ^ (exponent + 1) := by
    rw [indexed.next, power, Nat.pow_succ, Nat.mul_comm]
  have header : index.newBlockIndex.header =
      { capacity := index.nextBlockIndexCapacity
        tail := uint64 (index.header.capacity - 1) &&& (index.nextBlockIndexCapacity - 1)
        index := fun i =>
          if i < index.header.capacity then index.header.index (BlockIndex.prevPos index.header i)
          else index.allocated + (i - index.header.capacity)
        first := index.keyed - index.header.capacity
        keyed := index.keyed } := Function.update_self _ _ _
  rw [header]
  refine ⟨indexed.next, ?_, ?_, rfl, ?_, ?_⟩
  · have word : uint64 (index.header.capacity - 1) = index.header.capacity - 1 := by
      rw [uint64_of_bounds (by omega) (by omega)]
      omega
    rw [word, land_eq_mod double, indexed.next]
    exact Nat.mod_eq_of_lt (by omega)
  · dsimp only
    omega
  · intro i inside
    have place : (index.header.position started + i) % index.header.capacity = index.header.position (oldest + i) := by
      have shifted : started - index.header.first = oldest - index.header.first + index.header.capacity := by omega
      have further : oldest + i - index.header.first = oldest - index.header.first + i := by omega
      rw [BlockIndexHeader.position, BlockIndexHeader.position, shifted, further, Nat.mod_add_mod, Nat.add_right_comm,
        Nat.add_mod_right]
    simp only [if_pos inside]
    rw [prevPos_eq indexed.tail power, place]
  · intro i outside
    simp only [if_neg (Nat.not_lt.mpr outside)]

theorem Replaces.injective {oldest : Nat} (replaces : Replaces index oldest header)
    (indexed : Indexed index started started live) (first : index.header.first ≤ oldest) :
    ∀ position < header.capacity, ∀ other < header.capacity, header.index position = header.index other →
      position = other := by
  have positive := indexed.current.positive
  have below : ∀ i, index.header.index (index.header.position (oldest + i)) < index.allocated :=
    fun i => indexed.allocated _ (position_lt positive _)
  have apart : ∀ i j, i < j → j < index.header.capacity →
      index.header.index (index.header.position (oldest + i)) ≠
        index.header.index (index.header.position (oldest + j)) := by
    intro i j ordered inside same
    exact position_ne (Nat.le_trans first (Nat.le_add_right _ i)) (Nat.add_lt_add_left ordered oldest) (by omega)
      (indexed.injective _ (position_lt positive _) _ (position_lt positive _) same)
  intro position inside other within same
  rcases Nat.lt_or_ge position index.header.capacity with old | new
  · rcases Nat.lt_or_ge other index.header.capacity with former | latter
    · rw [replaces.old position old, replaces.old other former] at same
      rcases Nat.lt_trichotomy position other with before | equal | later
      · exact absurd same (apart position other before former)
      · exact equal
      · exact absurd same.symm (apart other position later old)
    · rw [replaces.old position old, replaces.new other latter] at same
      have bound := below position
      omega
  · rcases Nat.lt_or_ge other index.header.capacity with former | latter
    · rw [replaces.new position new, replaces.old other former] at same
      have bound := below other
      omega
    · rw [replaces.new position new, replaces.new other latter] at same
      omega

/-- A full index, from the oldest block that can still have an entry on. -/
structure Growing (index : BlockIndex Address) (started oldest : Nat) (live : Nat → Option Address) : Prop where
  indexed : Indexed index started started live
  keyed : index.keyed = started
  turn : started = oldest + index.header.capacity
  first : index.header.first ≤ oldest
  capacity : ∃ exponent < 58, index.header.capacity = 2 ^ exponent
  replaces : Replaces index oldest index.newBlockIndex.header

theorem Indexed.growing (indexed : Indexed index started started live) (full : index.Full started)
    (bounded : started * blockSize < 2 ^ 63) : ∃ oldest, Growing index started oldest live := by
  obtain ⟨keyed, round⟩ := full
  obtain ⟨oldest, turn⟩ : ∃ oldest, started = oldest + index.header.capacity :=
    ⟨started - index.header.capacity, by omega⟩
  have first : index.header.first ≤ oldest := by omega
  obtain ⟨exponent, _, power⟩ := indexed.current.capacity
  have small : exponent < 58 := by
    simp only [blockSize] at bounded
    have large : 2 ^ exponent < 2 ^ 58 := by
      rw [← power]
      omega
    exact (Nat.pow_lt_pow_iff_right (by decide)).mp large
  exact ⟨oldest, indexed, keyed, turn, first, ⟨exponent, small, power⟩,
    indexed.replaces first turn keyed power (Nat.lt_succ_of_lt small)⟩

theorem newBlockIndex_kept {entry : Nat} (below : entry < index.allocated) :
    index.newBlockIndex.entries entry = index.entries entry := by
  have old : ¬(index.allocated ≤ entry ∧ entry < index.allocated + index.header.capacity) := by omega
  exact if_neg old

variable {oldest : Nat}

theorem Growing.fresh (growing : Growing index started oldest live) {i : Nat} (outside : index.header.capacity ≤ i)
    (inside : i < 2 * index.header.capacity) :
    index.newBlockIndex.entries (index.newBlockIndex.header.index i) = .unused := by
  rw [growing.replaces.new i outside]
  exact if_pos (by omega)

theorem Growing.keyed_lt (growing : Growing index started oldest live) {block : Nat} (below : block < started) :
    block < index.header.keyed := by
  rw [growing.indexed.header_keyed, growing.keyed]
  exact below

theorem Growing.recent (growing : Growing index started oldest live) {block : Nat} {address : Address}
    (found : live block = some address) : oldest ≤ block := by
  have within := growing.keyed_lt (growing.indexed.live_lt block address found)
  have window := growing.indexed.current.window block address found within
  rw [growing.indexed.header_keyed, growing.keyed, growing.turn] at window
  omega

/-- The new ring starts with the entries of the old one, the oldest first. -/
theorem Growing.near (growing : Growing index started oldest live) {later : Nat} (ordered : oldest ≤ later)
    (below : later < started) :
    index.newBlockIndex.header.index (index.newBlockIndex.header.position later) =
      index.header.index (index.header.position later) := by
  have turn := growing.turn
  have place : index.newBlockIndex.header.position later = later - oldest := by
    rw [BlockIndexHeader.position, growing.replaces.capacity, growing.replaces.first]
    exact Nat.mod_eq_of_lt (by omega)
  rw [place, growing.replaces.old _ (by omega), Nat.add_sub_cancel' ordered]

theorem Growing.live_kept (growing : Growing index started oldest live) {block later : Nat} {address : Address}
    (found : live block = some address) (ordered : block ≤ later) (below : later < started) :
    index.newBlockIndex.entries (index.entryOf later) = index.entries (index.entryOf later) := by
  have current := growing.indexed.current
  have entry := current.entry block address found later ordered (growing.keyed_lt below)
  exact newBlockIndex_kept (entry ▸ growing.indexed.allocated _ (position_lt current.positive later))

/-- A position of the new ring has an entry of the old ring or an unused one. -/
theorem Growing.entry_cases (growing : Growing index started oldest live) {position : Nat}
    (inside : position < index.newBlockIndex.header.capacity) :
    (∃ former < index.header.capacity,
      index.newBlockIndex.header.index position = index.header.index former ∧
        index.newBlockIndex.entries (index.header.index former) = index.entries (index.header.index former)) ∨
      index.newBlockIndex.entries (index.newBlockIndex.header.index position) = .unused := by
  rw [growing.replaces.capacity] at inside
  rcases Nat.lt_or_ge position index.header.capacity with old | new
  · have former := position_lt growing.indexed.current.positive (oldest + position)
    exact .inl ⟨_, former, growing.replaces.old position old, newBlockIndex_kept (growing.indexed.allocated _ former)⟩
  · exact .inr (growing.fresh new inside)

theorem Growing.reads (growing : Growing index started oldest live) :
    Reads index.newBlockIndex live index.newBlockIndex.header := by
  have replaces := growing.replaces
  obtain ⟨exponent, small, power⟩ := growing.capacity
  refine ⟨⟨exponent + 1, by omega, by rw [replaces.capacity, power, Nat.pow_succ, Nat.mul_comm]⟩, replaces.keyed.le,
    ?_, ?_, ?_⟩
  · intro block address found _
    rw [replaces.first]
    exact growing.recent found
  · intro block address found _
    have below := growing.recent found
    have turn := growing.turn
    rw [replaces.keyed, replaces.capacity, growing.keyed]
    omega
  · intro block address found later ordered below
    rw [replaces.keyed, growing.keyed] at below
    rw [growing.near (Nat.le_trans (growing.recent found) ordered) below]
    exact growing.indexed.current.entry block address found later ordered (growing.keyed_lt below)

/-- The old ring stays readable beside those before it. -/
theorem Growing.older (growing : Growing index started oldest live) {ring : Nat} (older : ring < index.blockIndex + 1) :
    Reads index.newBlockIndex live (index.newBlockIndex.headers ring) ∧
      (index.newBlockIndex.headers ring).keyed ≤ started ∧
        (index.newBlockIndex.headers ring).Tail (index.newBlockIndex.headers ring).keyed := by
  have indexed := growing.indexed
  have same : index.newBlockIndex.headers ring = index.headers ring := Function.update_of_ne (Nat.ne_of_lt older) _ _
  rw [same]
  rcases Nat.eq_or_lt_of_le (Nat.le_of_lt_succ older) with latest | older
  · rw [latest]
    have current := indexed.current
    refine ⟨⟨current.capacity, current.keyed, current.first, current.window, current.entry⟩, ?_, ?_⟩
    · exact (indexed.header_keyed.trans growing.keyed).le
    · have stands := indexed.tail
      rwa [← growing.keyed, ← indexed.header_keyed] at stands
  · obtain ⟨reads, rest⟩ := indexed.older ring older
    exact ⟨⟨reads.capacity, reads.keyed, reads.first, reads.window, reads.entry⟩, rest⟩

theorem Growing.next (growing : Growing index started oldest live) :
    index.newBlockIndex.nextBlockIndexCapacity = 2 * index.newBlockIndex.header.capacity := by
  obtain ⟨exponent, small, power⟩ := growing.capacity
  have large : 2 ^ exponent ≤ 2 ^ 58 := Nat.pow_le_pow_right (by decide) small.le
  have word : uint64 (2 * index.nextBlockIndexCapacity : Nat) = 2 * index.nextBlockIndexCapacity := by
    rw [growing.indexed.next, power]
    exact uint64_of_bounds (by omega) (by omega)
  exact word.trans (by rw [growing.replaces.capacity, growing.indexed.next])

theorem Growing.tail (growing : Growing index started oldest live) : index.newBlockIndex.header.Tail started := by
  have replaces := growing.replaces
  have turn := growing.turn
  have positive := growing.indexed.current.positive
  refine ⟨by rw [replaces.first]; omega, ?_⟩
  have shifted : started - oldest + 2 * index.header.capacity - 1 =
      index.header.capacity - 1 + 2 * index.header.capacity := by omega
  rw [replaces.tail, replaces.capacity, replaces.first, shifted, Nat.add_mod_right]
  exact (Nat.mod_eq_of_lt (by omega)).symm

theorem Growing.allocated (growing : Growing index started oldest live) {position : Nat}
    (inside : position < index.newBlockIndex.header.capacity) :
    index.newBlockIndex.header.index position < index.newBlockIndex.allocated := by
  rw [growing.replaces.capacity] at inside
  change _ < index.allocated + index.header.capacity
  rcases Nat.lt_or_ge position index.header.capacity with old | new
  · rw [growing.replaces.old position old]
    have former := growing.indexed.allocated _ (position_lt growing.indexed.current.positive (oldest + position))
    exact Nat.lt_of_lt_of_le former (Nat.le_add_right _ _)
  · rw [growing.replaces.new position new]
    omega

theorem Growing.grown (growing : Growing index started oldest live) :
    Indexed index.newBlockIndex started started live where
  started_le := Nat.le_refl _
  tailed_le := growing.keyed.ge
  keyed_le := growing.indexed.keyed_le
  header_keyed := growing.replaces.keyed
  next := growing.next
  tail := growing.tail
  first := by
    have turn := growing.turn
    rw [growing.replaces.first]
    omega
  current := growing.reads
  older _ older := growing.older older
  allocated _ inside := growing.allocated inside
  injective := growing.replaces.injective growing.indexed growing.first
  live_lt := growing.indexed.live_lt
  live_entry block address found :=
    (growing.live_kept found (Nat.le_refl _) (growing.indexed.live_lt block address found)).trans
      (growing.indexed.live_entry block address found)
  live_key block address found later ordered below :=
    (congrArg BlockIndexEntry.key (growing.live_kept found ordered (growing.keyed ▸ below))).trans
      (growing.indexed.live_key block address found later ordered below)
  owned position inside address same := by
    obtain ⟨former, below, place, kept⟩ | unused := growing.entry_cases inside
    · rw [place, kept] at same
      rw [place]
      exact growing.indexed.owned former below address same
    · rw [unused] at same
      cases same
  written position inside same := by
    obtain ⟨former, below, place, kept⟩ | unused := growing.entry_cases inside
    · rw [place, kept] at same ⊢
      exact growing.indexed.written former below same
    · rw [unused]
      exact .inl rfl
  pending more := by
    have keyed := growing.keyed
    change index.keyed = started + 1 at more
    omega

/-- Growing the index loses no live block, and its next entry is unused. -/
theorem Indexed.grow (indexed : Indexed index started started live) (full : index.Full started)
    (bounded : started * blockSize < 2 ^ 63) :
    Indexed index.newBlockIndex started started live ∧
      (index.newBlockIndex.entries index.newBlockIndex.nextEntry).Reusable := by
  obtain ⟨oldest, growing⟩ := indexed.growing full bounded
  have positive := indexed.current.positive
  refine ⟨growing.grown, ?_⟩
  have place : index.newBlockIndex.header.position started = index.header.capacity := by
    rw [BlockIndexHeader.position, growing.replaces.capacity, growing.replaces.first, growing.turn,
      Nat.add_sub_cancel_left]
    exact Nat.mod_eq_of_lt (by omega)
  rw [growing.grown.nextEntry_eq, place, growing.fresh (Nat.le_refl _) (by omega)]
  exact .inl rfl

end Ndnperf.Cxx.ImplicitProducer

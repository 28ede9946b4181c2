import Mathlib.Data.Nat.ModEq
import Mathlib.Logic.Function.Basic
import Ndnperf.Library.Word

namespace Ndnperf.Cxx.ImplicitProducer

open Library.Word

/-! The block index of `ImplicitProducer` in `concurrentqueue.h`: a ring of
entries that leads from an index to the block of its element, and that is
replaced by a ring of twice the size when it is full. -/

def blockSize : Nat := 32

def implicitInitialIndexSize : Nat := 32

/-- `INVALID_BLOCK_BASE`. -/
def invalidBlockBase : Nat := 1

/-- What a `Block *` holds before it is written and afterwards. -/
inductive BlockPointer (Address : Type) where
  | indeterminate
  | null
  | block (address : Address)
deriving DecidableEq, Repr

structure BlockIndexEntry (Address : Type) where
  key : Nat
  value : BlockPointer Address
deriving DecidableEq, Repr

/-- An entry as `new_block_index` leaves it. -/
def BlockIndexEntry.unused {Address : Type} : BlockIndexEntry Address := ⟨invalidBlockBase, .indeterminate⟩

/-- A ring; `index` leads to the entries by their addresses. `first` and `keyed`
record the block at its first position and how many blocks had an entry in it. -/
structure BlockIndexHeader where
  capacity : Nat
  tail : Nat
  index : Nat → Nat
  first : Nat
  keyed : Nat

/-- The entries and the rings allocated so far; `blockIndex` is the ring in use.
`entryOf` records the entry that each of the blocks got, `keyed` how many did. -/
structure BlockIndex (Address : Type) where
  entries : Nat → BlockIndexEntry Address
  allocated : Nat
  headers : Nat → BlockIndexHeader
  blockIndex : Nat
  nextBlockIndexCapacity : Nat
  entryOf : Nat → Nat
  keyed : Nat

namespace BlockIndex

variable {Address : Type}

/-- After the constructor. -/
def initial : BlockIndex Address where
  entries _ := .unused
  allocated := implicitInitialIndexSize
  headers _ := ⟨implicitInitialIndexSize, uint64 (0 - 1) &&& (implicitInitialIndexSize - 1), id, 0, 0⟩
  blockIndex := 0
  nextBlockIndexCapacity := 2 * implicitInitialIndexSize
  entryOf _ := 0
  keyed := 0

variable (index : BlockIndex Address)

def header : BlockIndexHeader := index.headers index.blockIndex

def newTail : Nat := (index.header.tail + 1) &&& (index.header.capacity - 1)

/-- The entry that `insert_block_index_entry` looks at. -/
def nextEntry : Nat := index.header.index index.newTail

/-- `idxEntry->key.store(blockStartIndex)`, for the block that starts there. -/
def storeKey (blockStartIndex : Nat) : BlockIndex Address :=
  { index with
    entries := Function.update index.entries index.nextEntry
      { index.entries index.nextEntry with key := blockStartIndex }
    headers := Function.update index.headers index.blockIndex
      { index.header with keyed := blockStartIndex / blockSize + 1 }
    entryOf := Function.update index.entryOf (blockStartIndex / blockSize) index.nextEntry
    keyed := blockStartIndex / blockSize + 1 }

def storeTail (tail : Nat) : BlockIndex Address :=
  { index with headers := Function.update index.headers index.blockIndex { index.header with tail } }

/-- `rewind_block_index_tail`. -/
def rewindBlockIndexTail : BlockIndex Address :=
  index.storeTail (uint64 (index.header.tail - 1) &&& (index.header.capacity - 1))

def storeValue (entry : Nat) (value : BlockPointer Address) : BlockIndex Address :=
  { index with entries := Function.update index.entries entry { index.entries entry with value } }

/-- `prevPos` in the loop of `new_block_index` that copies the previous ring. -/
def prevPos (prev : BlockIndexHeader) : Nat → Nat
  | 0 => (prev.tail + 1) &&& (prev.capacity - 1)
  | i + 1 => (prevPos prev i + 1) &&& (prev.capacity - 1)

/-- `new_block_index`, where `malloc` succeeds. -/
def newBlockIndex : BlockIndex Address :=
  let prev := index.header
  { index with
    entries := fun entry =>
      if index.allocated ≤ entry ∧ entry < index.allocated + prev.capacity then .unused else index.entries entry
    allocated := index.allocated + prev.capacity
    headers := Function.update index.headers (index.blockIndex + 1)
      { capacity := index.nextBlockIndexCapacity
        tail := uint64 (prev.capacity - 1) &&& (index.nextBlockIndexCapacity - 1)
        index := fun i => if i < prev.capacity then prev.index (prevPos prev i)
          else index.allocated + (i - prev.capacity)
        first := index.keyed - prev.capacity
        keyed := index.keyed }
    blockIndex := index.blockIndex + 1
    nextBlockIndexCapacity := uint64 (2 * index.nextBlockIndexCapacity : Nat) }

end BlockIndex

/-- The position in the ring that `get_block_index_index_for_index` computes.
`BLOCK_SIZE` is unsigned, so the division is. -/
def positionFor (header : BlockIndexHeader) (tail tailBase index : Nat) : Nat :=
  let offset := uint64 ((index - index % blockSize : Nat) - tailBase) / blockSize
  uint64 (tail + offset : Nat) &&& (header.capacity - 1)

/-! ## Positions in a ring -/

/-- Where the ring has the entry of a block. -/
def BlockIndexHeader.position (header : BlockIndexHeader) (block : Nat) : Nat :=
  (block - header.first) % header.capacity

theorem land_eq_mod {capacity exponent : Nat} (power : capacity = 2 ^ exponent) (value : Nat) :
    value &&& (capacity - 1) = value % capacity := by
  rw [power, Nat.and_two_pow_sub_one_eq_mod]

theorem position_lt {header : BlockIndexHeader} (positive : 0 < header.capacity) (block : Nat) :
    header.position block < header.capacity :=
  Nat.mod_lt _ positive

/-- Going back from a later block within the words that a multiple of the capacity spans. -/
theorem position_back {header : BlockIndexHeader} {block last turns : Nat} (started : header.first ≤ block)
    (ordered : block ≤ last) (enough : last - block ≤ header.capacity * turns) :
    (header.position last + (header.capacity * turns - (last - block))) % header.capacity = header.position block := by
  refine Nat.ModEq.add_right_cancel' (last - block) ?_
  calc header.position last + (header.capacity * turns - (last - block)) + (last - block)
      = header.position last + header.capacity * turns := by omega
    _ ≡ last - header.first [MOD header.capacity] := by
        rw [Nat.ModEq, Nat.add_mul_mod_self_left, BlockIndexHeader.position, Nat.mod_mod]
    _ = (block - header.first) + (last - block) := by omega

/-- From the entry of a later block, the lookup goes back to the entry of the block. -/
theorem positionFor_eq {header : BlockIndexHeader} {exponent block last index : Nat} (small : exponent ≤ 59)
    (power : header.capacity = 2 ^ exponent) (started : header.first ≤ block) (ordered : block ≤ last)
    (inside : index / blockSize = block) (bounded : last * blockSize < 2 ^ 63) :
    positionFor header (header.position last) (last * blockSize) index = header.position block := by
  have whole : header.capacity * 2 ^ (59 - exponent) = 2 ^ 59 := by
    rw [power, ← Nat.pow_add, Nat.add_sub_cancel' small]
  have positive : 0 < header.capacity := by
    rw [power]
    exact Nat.two_pow_pos _
  have within := position_lt positive last
  have fits : header.capacity ≤ 2 ^ 59 := whole ▸ Nat.le_mul_of_pos_right _ (Nat.two_pow_pos _)
  have base : index - index % blockSize = block * blockSize := by
    rw [← inside]
    simp only [blockSize]
    omega
  simp only [positionFor, base]
  simp only [blockSize] at bounded ⊢
  rcases Nat.eq_or_lt_of_le ordered with same | later
  · have offset : uint64 ((block * 32 : Nat) - (last * 32 : Nat)) / 32 = 0 := by
      rw [uint64, same]
      omega
    have word : uint64 (header.position last + 0 : Nat) = header.position last :=
      uint64_of_bounds (by omega) (by omega)
    rw [offset, word, land_eq_mod power, Nat.mod_eq_of_lt within, same]
  · have offset : uint64 ((block * 32 : Nat) - (last * 32 : Nat)) / 32 = 2 ^ 59 - (last - block) := by
      rw [uint64]
      omega
    have word : uint64 (header.position last + (2 ^ 59 - (last - block)) : Nat) =
        header.position last + (2 ^ 59 - (last - block)) := uint64_of_bounds (by omega) (by omega)
    rw [offset, word, land_eq_mod power, ← whole]
    exact position_back started ordered (by omega)

end Ndnperf.Cxx.ImplicitProducer

import Ndnperf.Library.Ownership
import Ndnperf.Library.Tickets
import Ndnperf.Cxx.BlockIndexInvariant
import Ndnperf.Cxx.ImplicitProducer

namespace Ndnperf.Cxx.ImplicitProducer

open Library.Word Library.Transition Library.Threads Library.Ownership

variable {Thread Address Element : Type}

/-! ## What the thread that enqueues has -/

/-- Whether the entry of the next block is before the tail of the ring. -/
def ProducerPc.inserted : ProducerPc Address Element → Nat
  | .requisitionBlock _ _ | .constructFirst _ _ _ | .storeValue _ _ _ | .rewind _ _ => 1
  | _ => 0

/-- The block that it has got and not put into the index. -/
def ProducerPc.block : ProducerPc Address Element → Option Address
  | .constructFirst _ _ block | .storeValue _ _ block | .addToFreeList block => some block
  | .rewind _ block | .clearEntry _ block => block
  | _ => none

/-- The element that it has constructed and not offered. -/
def ProducerPc.constructed (noexceptCtor : Bool) : ProducerPc Address Element → Option Element
  | .storeValue element _ _ => if noexceptCtor then none else some element
  | .storeTailIndex element => some element
  | _ => none

/-- The entry of a block that could not be had is cleared. -/
def BlockIndex.Settled (index : BlockIndex Address) (started : Nat) : Prop :=
  index.keyed = started + 1 → (index.entries (index.entryOf started)).value = .null

/-- What it knows of the index. -/
def ProducerPc.Knows (index : BlockIndex Address) (started : Nat) : ProducerPc Address Element → Prop
  | .newBlockIndex _ => index.Full started
  | .storeKey _ => (index.entries index.nextEntry).Reusable
  | .storeTail _ => index.keyed = started + 1
  | .requisitionBlock _ entry | .constructFirst _ entry _ | .storeValue _ entry _ | .rewind entry _ =>
      entry = index.entryOf started
  | .clearEntry entry _ => index.keyed = started + 1 ∧ entry = index.entryOf started
  | _ => index.Settled started

/-- The blocks started are those that the elements fill, and where an element is
to be constructed or offered, one that has room for it. -/
def ProducerPc.Filled (noexceptCtor : Bool) (started enqueued : Nat) : ProducerPc Address Element → Prop
  | .outside _ => enqueued ≤ started * blockSize ∧ started * blockSize < enqueued + blockSize
  | .construct _ =>
      enqueued < started * blockSize ∧ started * blockSize ≤ enqueued + blockSize ∧
        (noexceptCtor = false → started * blockSize < enqueued + blockSize)
  | .storeTailIndex _ => enqueued < started * blockSize ∧ started * blockSize ≤ enqueued + blockSize
  | .constructFirst _ _ _ => enqueued = started * blockSize ∧ noexceptCtor = false
  | _ => enqueued = started * blockSize

/-! ## What the threads that dequeue have -/

/-- Where a thread is in drawing a ticket and claiming an element. -/
def ConsumerPc.place : ConsumerPc Address Element → Library.Tickets.Place
  | .outside _ => .away
  | .loadTail => .start
  | .loadOvercommit tail => .sawTail tail
  | .loadOptimistic tail overcommit => .sawReturned tail overcommit
  | .addOptimistic overcommit => .draw overcommit
  | .compare overcommit myDequeueCount => .decide overcommit myDequeueCount
  | .addOvercommit => .handBack
  | .addHead => .claim
  | .loadBlockIndex index | .loadIndexTail index _ | .loadKey index _ _ | .loadValue index _ | .moveElement index _ _
  | .setEmpty index _ _ _ | .clearEntry index _ _ _ | .addToFreeList index _ _ => .claimed index

/-- The element that it has claimed and not moved out of its cell. -/
def ConsumerPc.claimed : ConsumerPc Address Element → Option Nat
  | .loadBlockIndex index | .loadIndexTail index _ | .loadKey index _ _ | .loadValue index _ | .moveElement index _ _ =>
      some index
  | _ => none

/-- The element that it has claimed and not counted in its block. -/
def ConsumerPc.uncounted : ConsumerPc Address Element → Option Nat
  | .setEmpty index _ _ _ => some index
  | pc => pc.claimed

def ConsumerPc.Within (block : Nat) (pc : ConsumerPc Address Element) : Prop :=
  pc.uncounted.map (· / blockSize) = some block

instance (block : Nat) : DecidablePred (ConsumerPc.Within block : ConsumerPc Address Element → Prop) :=
  fun pc => inferInstanceAs (Decidable (pc.uncounted.map (· / blockSize) = some block))

/-- The block that it takes out of the index. -/
def ConsumerPc.clearing : ConsumerPc Address Element → Option Nat
  | .clearEntry index _ _ _ => some (index / blockSize)
  | _ => none

/-- The block that it gives back. -/
def ConsumerPc.block : ConsumerPc Address Element → Option Address
  | .addToFreeList _ block _ => some block
  | _ => none

namespace State

variable (state : State Thread Address Element)

/-- The blocks in the index, by their numbers. -/
def live (block : Nat) : Option Address := if block ∈ state.retired then none else state.started[block]?

/-- Where the elements of a block are, in the index or with the thread that enqueues. -/
def home (block : Nat) : Option Address :=
  if block = state.started.length then state.producer.block else state.live block

/-- Who has the blocks that came from the pool. -/
def owned : Nat ⊕ Thread → Option Address := Sum.elim state.home fun thread => (state.consumers thread).block

/-- The elements that have been constructed. -/
def constructed (noexceptCtor : Bool) : List Element :=
  state.enqueued ++ (state.producer.constructed noexceptCtor).toList

/-- The element has been moved out of its cell. -/
def Taken (index : Nat) : Prop := index < state.headIndex ∧ ∀ thread, (state.consumers thread).claimed ≠ some index

end State

/-- What a thread that dequeues knows of its element and of the block that it is in. -/
def ConsumerPc.Knows (state : State Thread Address Element) : ConsumerPc Address Element → Prop
  | .loadBlockIndex index => ∃ address, state.live (index / blockSize) = some address
  | .loadIndexTail index header =>
      (∃ address, state.live (index / blockSize) = some address) ∧
        Loaded state.index state.started.length header (index / blockSize)
  | .loadKey index header tail =>
      (∃ address, state.live (index / blockSize) = some address) ∧ header ≤ state.index.blockIndex ∧
        ∃ later, index / blockSize ≤ later ∧ later < (state.index.headers header).keyed ∧
          tail = (state.index.headers header).position later
  | .loadValue index entry =>
      (∃ address, state.live (index / blockSize) = some address) ∧ entry = state.index.entryOf (index / blockSize)
  | .moveElement index entry block =>
      state.live (index / blockSize) = some block ∧ entry = state.index.entryOf (index / blockSize)
  | .setEmpty index entry block element =>
      state.live (index / blockSize) = some block ∧ entry = state.index.entryOf (index / blockSize) ∧
        state.enqueued[index]? = some element
  | .clearEntry index entry block element =>
      state.live (index / blockSize) = some block ∧ entry = state.index.entryOf (index / blockSize) ∧
        state.enqueued[index]? = some element ∧ (state.blocks block).elementsCompletelyDequeued = blockSize
  | .addToFreeList index _ element => state.enqueued[index]? = some element
  | _ => True

/-! ## The invariant -/

variable [Fintype Thread]

/-- The counters are those of the tickets and claims. -/
structure Counted (state : State Thread Address Element) (image : Library.Tickets.State Thread) : Prop where
  sound : Library.Tickets.Sound image
  tail : image.tail = state.enqueued.length
  drawn : image.drawn = state.drawn
  tailIndex : state.tailIndex = state.enqueued.length
  headIndex : state.headIndex = image.head
  dequeueOptimisticCount : state.dequeueOptimisticCount = state.drawn
  dequeueOvercommit : state.dequeueOvercommit = image.returned
  places : ∀ thread, image.places thread = (state.consumers thread).place

structure Sound (noexceptCtor : Bool) (state : State Thread Address Element) : Prop where
  defined : state.undefined = false
  counted : ∃ image, Counted state image
  indexed : Indexed state.index state.started.length (state.started.length + state.producer.inserted) state.live
  produces : state.producer.Knows state.index state.started.length
  filled : state.producer.Filled noexceptCtor state.started.length state.enqueued.length
  tailBlock : state.tailBlock = state.started.getLast?
  owned : Exclusive state.owned state.held
  retired : ∀ block ∈ state.retired, (block + 1) * blockSize ≤ state.headIndex
  knows : ∀ thread, (state.consumers thread).Knows state
  alone : ∀ thread other block, (state.consumers thread).clearing = some block →
    (state.consumers other).clearing = some block → thread = other
  taken : ∀ block address, state.home block = some address → ∀ index, index / blockSize = block → state.Taken index →
    (state.blocks address).elements (index % blockSize) = none
  kept : ∀ block address, state.home block = some address → ∀ index, index / blockSize = block → ¬state.Taken index →
    (state.blocks address).elements (index % blockSize) = (state.constructed noexceptCtor)[index]?
  counts : ∀ block address, state.home block = some address →
    (state.blocks address).elementsCompletelyDequeued + threadsAt (ConsumerPc.Within block) state.consumers =
      min blockSize (state.headIndex - block * blockSize)
  emptied : ∀ block address, state.home block = some address →
    (state.blocks address).elementsCompletelyDequeued = blockSize →
      ∃ thread, (state.consumers thread).clearing = some block

/-- Within the number of calls that the words count. -/
def Young (state : State Thread Address Element) : Prop := state.enqueued.length < 2 ^ 62 ∧ state.drawn < 2 ^ 62

theorem initial_sound (noexceptCtor : Bool) (blocks : Address → Block Element) :
    Sound noexceptCtor (State.initial blocks : State Thread Address Element) := by
  have homeless : ∀ block, (State.initial blocks : State Thread Address Element).home block = none := by
    intro block
    simp [State.home, State.initial, ProducerPc.block, State.live]
  have nobody : (State.initial blocks : State Thread Address Element).owned = fun _ => none := by
    funext owner
    cases owner with
    | inl block => exact homeless block
    | inr thread => rfl
  refine ⟨rfl, ⟨.initial, Library.Tickets.sound_initial, rfl, rfl, rfl, rfl, rfl, rfl, fun _ => rfl⟩, ?_,
    nofun, ?_, rfl, ?_, nofun, fun _ => trivial, nofun, ?_, ?_, ?_, ?_⟩
  · have nothing : (State.initial blocks : State Thread Address Element).live = fun _ => none := by
      funext block
      simp [State.live, State.initial]
    rw [nothing]
    exact initial_indexed
  · simp [State.initial, ProducerPc.Filled, blockSize]
  · rw [nobody]
    exact exclusive_none
  · intro block address found
    cases (homeless block).symm.trans found
  · intro block address found
    cases (homeless block).symm.trans found
  · intro block address found
    cases (homeless block).symm.trans found
  · intro block address found
    cases (homeless block).symm.trans found

end Ndnperf.Cxx.ImplicitProducer

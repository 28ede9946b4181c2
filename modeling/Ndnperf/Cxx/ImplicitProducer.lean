import Mathlib.Data.Finset.Basic
import Ndnperf.Library.Transition
import Ndnperf.Cxx.BlockIndex

namespace Ndnperf.Cxx.ImplicitProducer

open Library.Word Library.Transition

/-! `ImplicitProducer` in `concurrentqueue.h`: the accesses to shared memory in
`enqueue`, which one thread calls, and in `dequeue`, which any thread may call.
Atomics are sequentially consistent; `BLOCK_SIZE` is a power of two, so masks
with `BLOCK_SIZE - 1` are remainders. -/

/-- `circular_less_than<index_t>`. -/
def circularLessThan (a b : Nat) : Prop := uint64 ((a : Int) - b) > 2 ^ 63

instance (a b : Nat) : Decidable (circularLessThan a b) := inferInstanceAs (Decidable (_ > _))

/-- The cells of a block hold an element between its construction and its destruction. -/
structure Block (Element : Type) where
  elementsCompletelyDequeued : Nat
  elements : Nat → Option Element

/-- Where the thread that enqueues is, with the entry and the block that it has
got; outside, with what the last call returned. -/
inductive ProducerPc (Address Element : Type) where
  | outside (result : Bool)
  | loadHead (element : Element)
  | loadEntry (element : Element)
  | newBlockIndex (element : Element)
  | storeKey (element : Element)
  | storeTail (element : Element)
  | requisitionBlock (element : Element) (entry : Nat)
  | constructFirst (element : Element) (entry : Nat) (block : Address)
  | storeValue (element : Element) (entry : Nat) (block : Address)
  | construct (element : Element)
  | storeTailIndex (element : Element)
  | rewind (entry : Nat) (block : Option Address)
  | clearEntry (entry : Nat) (block : Option Address)
  | addToFreeList (block : Address)

/-- Where a thread that dequeues is, with what it has read; outside, with the
element of its last call. -/
inductive ConsumerPc (Address Element : Type) where
  | outside (result : Option Element)
  | loadTail
  | loadOvercommit (tail : Nat)
  | loadOptimistic (tail overcommit : Nat)
  | addOptimistic (overcommit : Nat)
  | compare (overcommit myDequeueCount : Nat)
  | addOvercommit
  | addHead
  | loadBlockIndex (index : Nat)
  | loadIndexTail (index header : Nat)
  | loadKey (index header tail : Nat)
  | loadValue (index entry : Nat)
  | moveElement (index entry : Nat) (block : Address)
  | setEmpty (index entry : Nat) (block : Address) (element : Element)
  | clearEntry (index entry : Nat) (block : Address) (element : Element)
  | addToFreeList (index : Nat) (block : Address) (element : Element)

/-- The members of the producer, the blocks, and where each thread is;
`undefined` once undefined behaviour has been met.

The rest is a record of the past: the elements enqueued, the number of
`fetch_add` on `dequeueOptimisticCount`, the blocks put into the index and, by
their numbers, those taken out of it, and the blocks this producer has got from
the pool and not given back. -/
structure State (Thread Address Element : Type) where
  tailIndex : Nat
  headIndex : Nat
  dequeueOptimisticCount : Nat
  dequeueOvercommit : Nat
  tailBlock : Option Address
  index : BlockIndex Address
  blocks : Address → Block Element
  producer : ProducerPc Address Element
  consumers : Thread → ConsumerPc Address Element
  undefined : Bool
  enqueued : List Element
  drawn : Nat
  started : List Address
  retired : Finset Nat
  held : Finset Address

variable {Thread Address Element : Type} [DecidableEq Thread] [DecidableEq Address]

/-- After the constructor, whose `new_block_index` succeeds. -/
def State.initial (blocks : Address → Block Element) : State Thread Address Element where
  tailIndex := 0
  headIndex := 0
  dequeueOptimisticCount := 0
  dequeueOvercommit := 0
  tailBlock := none
  index := .initial
  blocks := blocks
  producer := .outside true
  consumers _ := .outside none
  undefined := false
  enqueued := []
  drawn := 0
  started := []
  retired := ∅
  held := ∅

namespace State

variable (state : State Thread Address Element)

def producerAt (pc : ProducerPc Address Element) : State Thread Address Element := { state with producer := pc }

def consumerAt (thread : Thread) (pc : ConsumerPc Address Element) : State Thread Address Element :=
  { state with consumers := Function.update state.consumers thread pc }

def undefinedBehaviour : State Thread Address Element := { state with undefined := true }

def setCell (block : Address) (offset : Nat) (content : Option Element) : State Thread Address Element :=
  { state with
    blocks := Function.update state.blocks block
      { state.blocks block with elements := Function.update (state.blocks block).elements offset content } }

def setCount (block : Address) (count : Nat) : State Thread Address Element :=
  { state with
    blocks := Function.update state.blocks block { state.blocks block with elementsCompletelyDequeued := count } }

/-- `new ((*block)[currentTailIndex]) T(element)`; the block has to be the
producer's and the cell free. -/
def constructIn (block : Address) (element : Element) (next : ProducerPc Address Element) :
    State Thread Address Element :=
  if block ∈ state.held ∧ (state.blocks block).elements (state.tailIndex % blockSize) = none then
    (state.setCell block (state.tailIndex % blockSize) (some element)).producerAt next
  else state.undefinedBehaviour

/-- `add_block_to_free_list`, for a block that is not in the list already. -/
def giveBack (block : Address) : State Thread Address Element :=
  if block ∈ state.held then { state with held := state.held.erase block } else state.undefinedBehaviour

end State

/-- What the allocator, `requisition_block` and the constructor of the element do. -/
structure Outcome (Address : Type) where
  allocates : Bool
  block : Option Address
  throws : Bool

/-- A step of the thread that enqueues; `noexceptCtor` tells whether the
constructor of the element cannot throw. `requisition_block` gives no block that
is in use. -/
def produce (noexceptCtor : Bool) (state : State Thread Address Element) (outcome : Outcome Address) :
    Option (State Thread Address Element) :=
  match state.producer with
  | .outside _ => none
  | .loadHead element =>
      some (state.producerAt
        (if circularLessThan state.headIndex (uint64 (state.tailIndex + blockSize : Nat)) then .loadEntry element
          else .outside false))
  | .loadEntry element =>
      let entry := state.index.entries state.index.nextEntry
      if entry.key = invalidBlockBase then some (state.producerAt (.storeKey element))
      else
        match entry.value with
        | .null => some (state.producerAt (.storeKey element))
        | .block _ => some (state.producerAt (.newBlockIndex element))
        | .indeterminate => some state.undefinedBehaviour
  | .newBlockIndex element =>
      if outcome.allocates then some ({ state with index := state.index.newBlockIndex }.producerAt (.storeKey element))
      else some (state.producerAt (.outside false))
  | .storeKey element =>
      some ({ state with index := state.index.storeKey state.tailIndex }.producerAt (.storeTail element))
  | .storeTail element =>
      some ({ state with index := state.index.storeTail state.index.newTail }.producerAt
        (.requisitionBlock element state.index.nextEntry))
  | .requisitionBlock element entry =>
      match outcome.block with
      | none => some (state.producerAt (.rewind entry none))
      | some block =>
          if block ∈ state.held then none
          else
            some ({ state with
              blocks := Function.update state.blocks block ⟨0, fun _ => none⟩
              held := insert block state.held
              }.producerAt (if noexceptCtor then .storeValue element entry block
                else .constructFirst element entry block))
  | .constructFirst element entry block =>
      if outcome.throws then some (state.producerAt (.rewind entry (some block)))
      else some (state.constructIn block element (.storeValue element entry block))
  | .storeValue element entry block =>
      some ({ state with
        index := state.index.storeValue entry (.block block)
        tailBlock := some block
        started := state.started ++ [block]
        }.producerAt (if noexceptCtor then .construct element else .storeTailIndex element))
  | .construct element =>
      if noexceptCtor = false ∧ outcome.throws then some (state.producerAt (.outside false))
      else
        match state.tailBlock with
        | none => some state.undefinedBehaviour
        | some block => some (state.constructIn block element (.storeTailIndex element))
  | .storeTailIndex element =>
      some ({ state with
        tailIndex := uint64 (1 + state.tailIndex : Nat)
        enqueued := state.enqueued ++ [element] }.producerAt (.outside true))
  | .rewind entry block =>
      some ({ state with index := state.index.rewindBlockIndexTail }.producerAt (.clearEntry entry block))
  | .clearEntry entry block =>
      some ({ state with index := state.index.storeValue entry .null }.producerAt
        (match block with
          | none => .outside false
          | some block => .addToFreeList block))
  | .addToFreeList block => some ((state.giveBack block).producerAt (.outside false))

/-- A step of a thread that dequeues. -/
def consume (state : State Thread Address Element) (thread : Thread) : Option (State Thread Address Element) :=
  match state.consumers thread with
  | .outside _ => none
  | .loadTail => some (state.consumerAt thread (.loadOvercommit state.tailIndex))
  | .loadOvercommit tail => some (state.consumerAt thread (.loadOptimistic tail state.dequeueOvercommit))
  | .loadOptimistic tail overcommit =>
      some (state.consumerAt thread
        (if circularLessThan (uint64 ((state.dequeueOptimisticCount : Int) - overcommit)) tail then
          .addOptimistic overcommit
          else .outside none))
  | .addOptimistic overcommit =>
      some ({ state with
        dequeueOptimisticCount := uint64 (state.dequeueOptimisticCount + 1 : Nat)
        drawn := state.drawn + 1 }.consumerAt thread (.compare overcommit state.dequeueOptimisticCount))
  | .compare overcommit myDequeueCount =>
      some (state.consumerAt thread
        (if circularLessThan (uint64 ((myDequeueCount : Int) - overcommit)) state.tailIndex then .addHead
          else .addOvercommit))
  | .addOvercommit =>
      some ({ state with dequeueOvercommit := uint64 (state.dequeueOvercommit + 1 : Nat) }.consumerAt thread
        (.outside none))
  | .addHead =>
      some ({ state with headIndex := uint64 (state.headIndex + 1 : Nat) }.consumerAt thread
        (.loadBlockIndex state.headIndex))
  | .loadBlockIndex index => some (state.consumerAt thread (.loadIndexTail index state.index.blockIndex))
  | .loadIndexTail index header => some (state.consumerAt thread
      (.loadKey index header (state.index.headers header).tail))
  | .loadKey index header tail =>
      let ring := state.index.headers header
      some (state.consumerAt thread
        (.loadValue index (ring.index (positionFor ring tail (state.index.entries (ring.index tail)).key index))))
  | .loadValue index entry =>
      match (state.index.entries entry).value with
      | .block block => some (state.consumerAt thread (.moveElement index entry block))
      | .null | .indeterminate => some state.undefinedBehaviour
  | .moveElement index entry block =>
      match (state.blocks block).elements (index % blockSize) with
      | some element =>
          some ((state.setCell block (index % blockSize) none).consumerAt thread (.setEmpty index entry block element))
      | none => some state.undefinedBehaviour
  | .setEmpty index entry block element =>
      let prevVal := (state.blocks block).elementsCompletelyDequeued
      some ((state.setCount block (prevVal + 1)).consumerAt thread
        (if prevVal = blockSize - 1 then .clearEntry index entry block element else .outside (some element)))
  | .clearEntry index entry block element =>
      some ({ state with
        index := state.index.storeValue entry .null
        retired := insert (index / blockSize) state.retired }.consumerAt thread (.addToFreeList index block element))
  | .addToFreeList _ block element => some ((state.giveBack block).consumerAt thread (.outside (some element)))

inductive Label (Thread Address Element : Type) where
  | enqueue (element : Element)
  | produce (outcome : Outcome Address)
  | dequeue (thread : Thread)
  | consume (thread : Thread)

def step (noexceptCtor : Bool) (state : State Thread Address Element) :
    Label Thread Address Element → Option (State Thread Address Element)
  | .enqueue element =>
      match state.producer with
      | .outside _ =>
          some (state.producerAt (if state.tailIndex % blockSize = 0 then .loadHead element else .construct element))
      | _ => none
  | .produce outcome => produce noexceptCtor state outcome
  | .dequeue thread =>
      match state.consumers thread with
      | .outside _ => some (state.consumerAt thread .loadTail)
      | _ => none
  | .consume thread => consume state thread

/-- A producer and the threads that dequeue from it, in any interleaving. -/
def system (noexceptCtor : Bool) : System (State Thread Address Element) (Label Thread Address Element) where
  start state := ∃ blocks, state = .initial blocks
  step := step noexceptCtor

end Ndnperf.Cxx.ImplicitProducer

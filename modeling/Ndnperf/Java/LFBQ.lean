import Mathlib.Data.Fintype.Basic
import Ndnperf.Library.Transition

namespace Ndnperf.Java.LFBQ

open Library.Transition

/-! `LFBQ.java`: the atomic steps of `offer` and `take`. Threads are not
interrupted, and `park` returns only when it finds a permit. -/

/-- Where a producer is: outside `offer`, before `consumerWorker.get(index)`,
before `consumerWorker.set(index, null)` or before `unpark(threadToNotify)`. -/
inductive ProducerPc (Consumer : Type) where
  | outside
  | get (index : Nat)
  | set (index : Nat) (threadToNotify : Consumer)
  | unpark (index : Nat) (threadToNotify : Consumer)
deriving DecidableEq

/-- Where a consumer is: outside `take`, before `pollFirst`, before
`consumerWorker.get(index)`, before `compareAndSet(index, null, currentThread)`,
before `park`, blocked in it, or before `parkNanos`. -/
inductive ConsumerPc where
  | outside
  | poll
  | get (index : Nat)
  | compareAndSet (index : Nat)
  | park
  | parked
  | parkNanos
deriving DecidableEq

structure State (Element Producer Consumer : Type) where
  deque : List Element
  consumerWorker : Nat → Option Consumer
  permit : Consumer → Bool
  producers : Producer → ProducerPc Consumer
  consumers : Consumer → ConsumerPc

variable {Element Producer Consumer : Type} [DecidableEq Producer] [DecidableEq Consumer]

namespace State

variable (state : State Element Producer Consumer)

def producerAt (producer : Producer) (pc : ProducerPc Consumer) : State Element Producer Consumer :=
  { state with producers := Function.update state.producers producer pc }

def consumerAt (consumer : Consumer) (pc : ConsumerPc) : State Element Producer Consumer :=
  { state with consumers := Function.update state.consumers consumer pc }

def setSlot (index : Nat) (worker : Option Consumer) : State Element Producer Consumer :=
  { state with consumerWorker := Function.update state.consumerWorker index worker }

def setPermit (consumer : Consumer) (permit : Bool) : State Element Producer Consumer :=
  { state with permit := Function.update state.permit consumer permit }

end State

/-- `offerLast(e)`, the first step of `offer`. -/
def offerLast (state : State Element Producer Consumer) (producer : Producer) (element : Element) :
    Option (State Element Producer Consumer) :=
  if state.producers producer = .outside then
    some ({ state with deque := state.deque ++ [element] }.producerAt producer (.get 0))
  else none

def offerStep (slots : Nat) (state : State Element Producer Consumer) (producer : Producer) :
    Option (State Element Producer Consumer) :=
  match state.producers producer with
  | .outside => none
  | .get index =>
      if index < slots then
        match state.consumerWorker index with
        | some threadToNotify => some (state.producerAt producer (.set index threadToNotify))
        | none => some (state.producerAt producer (.get (index + 1)))
      else some (state.producerAt producer .outside)
  | .set index threadToNotify =>
      some ((state.setSlot index none).producerAt producer (.unpark index threadToNotify))
  | .unpark index threadToNotify =>
      some ((state.setPermit threadToNotify true).producerAt producer (.get (index + 1)))

/-- The loop of `take`. `parkNanos` returns at a permit or after its time. -/
def takeStep (slots : Nat) (state : State Element Producer Consumer) (consumer : Consumer) :
    Option (State Element Producer Consumer) :=
  match state.consumers consumer with
  | .outside => some (state.consumerAt consumer .poll)
  | .poll =>
      match state.deque with
      | _ :: rest => some ({ state with deque := rest }.consumerAt consumer .outside)
      | [] => some (state.consumerAt consumer (.get 0))
  | .get index =>
      if index < slots then
        match state.consumerWorker index with
        | none => some (state.consumerAt consumer (.compareAndSet index))
        | some _ => some (state.consumerAt consumer (.get (index + 1)))
      else some (state.consumerAt consumer .parkNanos)
  | .compareAndSet index =>
      match state.consumerWorker index with
      | none => some ((state.setSlot index (some consumer)).consumerAt consumer .park)
      | some _ => some (state.consumerAt consumer (.get (index + 1)))
  | .park =>
      if state.permit consumer then some ((state.setPermit consumer false).consumerAt consumer .poll)
      else some (state.consumerAt consumer .parked)
  | .parked =>
      if state.permit consumer then some ((state.setPermit consumer false).consumerAt consumer .poll) else none
  | .parkNanos => some ((state.setPermit consumer false).consumerAt consumer .poll)

inductive Label (Element Producer Consumer : Type) where
  | offer (producer : Producer) (element : Element)
  | producer (producer : Producer)
  | consumer (consumer : Consumer)

def step (slots : Nat) (state : State Element Producer Consumer) :
    Label Element Producer Consumer → Option (State Element Producer Consumer)
  | .offer producer element => offerLast state producer element
  | .producer producer => offerStep slots state producer
  | .consumer consumer => takeStep slots state consumer

def State.initial : State Element Producer Consumer where
  deque := []
  consumerWorker _ := none
  permit _ := false
  producers _ := .outside
  consumers _ := .outside

/-- A queue with `slots` slots and its threads, in any interleaving. -/
def system (slots : Nat) : System (State Element Producer Consumer) (Label Element Producer Consumer) where
  start state := state = .initial
  step := step slots

/-- An element waits, every consumer is blocked in `park` without a permit,
and no producer is about to unpark anyone. -/
structure LostWakeup (state : State Element Producer Consumer) : Prop where
  waiting : state.deque ≠ []
  blocked : ∀ consumer, state.consumers consumer = .parked ∧ state.permit consumer = false
  idle : ∀ producer, state.producers producer = .outside

end Ndnperf.Java.LFBQ

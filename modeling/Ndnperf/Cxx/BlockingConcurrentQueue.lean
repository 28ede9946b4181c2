import Mathlib.Data.Fintype.Basic
import Ndnperf.Cxx.ImplicitProducer
import Ndnperf.Cxx.LightweightSemaphore

namespace Ndnperf.Cxx.BlockingConcurrentQueue

open Library.Word Library.Transition

/-! `enqueue` and `wait_dequeue` in `blockingconcurrentqueue.h`, over the
semaphore and `ConcurrentQueue::try_dequeue`. A thread that enqueues has a
producer of its own, which `get_or_add_implicit_producer` finds or adds in one
step; producers are never removed. Each producer has its view of the blocks that
it holds; the pool gives none that any producer holds. -/

/-- What `try_dequeue` has found while it looks for the fullest producer. -/
structure Scan (Thread : Type) where
  nonEmptyCount : Nat
  best : Option Thread
  bestSize : Nat

def Scan.start {Thread : Type} : Scan Thread := ⟨0, none, 0⟩

def Scan.see {Thread : Type} (scan : Scan Thread) (ptr : Thread) (size : Nat) : Scan Thread :=
  if size > 0 then
    if size > scan.bestSize then ⟨scan.nonEmptyCount + 1, some ptr, size⟩
    else { scan with nonEmptyCount := scan.nonEmptyCount + 1 }
  else scan

/-- `ProducerBase::size_approx`. -/
def sizeApprox (tail head : Nat) : Nat :=
  if ImplicitProducer.circularLessThan head tail then uint64 ((tail : Int) - head) else 0

/-- Where a thread is: outside, with the element of its last call; in
`inner.enqueue`; in `sema->signal()`; in `sema->wait()`; before a load of
`producerListTail`, of a tail or of a head in `try_dequeue`; or in `dequeue` of
the best producer or of another one, with the producers that come after it. -/
inductive Pc (Thread Element : Type) where
  | outside (result : Option Element)
  | enqueue
  | signal
  | wait
  | producerListTail
  | sizeTail (scan : Scan Thread) (ptr : Thread) (rest : List Thread)
  | sizeHead (scan : Scan Thread) (ptr : Thread) (rest : List Thread) (tail : Nat)
  | dequeueBest (best : Thread)
  | secondListTail (best : Thread)
  | dequeueOther (best ptr : Thread) (rest : List Thread)

/-- The semaphore, the producers from `producerListTail` on, each under the
thread that it belongs to, and where each thread is; `undefined` once undefined
behaviour has been met. What the calls of each thread returned is a record of the past. -/
structure State (Thread Address Element : Type) where
  sema : LightweightSemaphore.State Thread
  producerList : List Thread
  producers : Thread → ImplicitProducer.State Thread Address Element
  pcs : Thread → Pc Thread Element
  undefined : Bool
  dequeued : Thread → List Element

variable {Thread Address Element : Type} [DecidableEq Thread] [DecidableEq Address]

def State.initial (blocks : Thread → Address → ImplicitProducer.Block Element) : State Thread Address Element where
  sema := .initial 0
  producerList := []
  producers thread := .initial (blocks thread)
  pcs _ := .outside none
  undefined := false
  dequeued _ := []

namespace State

variable (state : State Thread Address Element)

def threadAt (thread : Thread) (pc : Pc Thread Element) : State Thread Address Element :=
  { state with pcs := Function.update state.pcs thread pc }

def setProducer (ptr : Thread) (producer : ImplicitProducer.State Thread Address Element) :
    State Thread Address Element :=
  { state with producers := Function.update state.producers ptr producer }

/-- A call of `ptr->dequeue`. -/
def callDequeue (thread ptr : Thread) (pc : Pc Thread Element) : State Thread Address Element :=
  (state.setProducer ptr ((state.producers ptr).consumerAt thread .loadTail)).threadAt thread pc

/-- After the loop that looks for the fullest producer; where all were empty,
`try_dequeue` returns `false` and `wait_dequeue` calls it again. -/
def scanned (thread : Thread) (scan : Scan Thread) : State Thread Address Element :=
  if scan.nonEmptyCount > 0 then
    match scan.best with
    | some best => state.callDequeue thread best (.dequeueBest best)
    | none => { state with undefined := true }
  else state.threadAt thread .producerListTail

/-- The loop that looks for the fullest producer. -/
def scanFrom (thread : Thread) (scan : Scan Thread) : List Thread → State Thread Address Element
  | ptr :: rest => if scan.nonEmptyCount < 3 then state.threadAt thread (.sizeTail scan ptr rest)
      else state.scanned thread scan
  | [] => state.scanned thread scan

/-- The loop that tries all the other producers. -/
def tryFrom (thread best : Thread) : List Thread → State Thread Address Element
  | [] => state.threadAt thread .producerListTail
  | ptr :: rest =>
      if ptr = best then tryFrom thread best rest else state.callDequeue thread ptr (.dequeueOther best ptr rest)

/-- A step in `ptr->dequeue`, or the return from it. -/
def inDequeue (thread ptr : Thread) (failed : State Thread Address Element) : Option (State Thread Address Element) :=
  match (state.producers ptr).consumers thread with
  | .outside (some element) =>
      some ({ state with
        dequeued := Function.update state.dequeued thread (state.dequeued thread ++ [element])
        }.threadAt thread (.outside (some element)))
  | .outside none => some failed
  | _ => (ImplicitProducer.consume (state.producers ptr) thread).map (state.setProducer ptr)

/-- A step in a call of the semaphore, or the return from it. -/
def inSemaphore (thread : Thread) (spurious : Bool) (returned : Pc Thread Element) :
    Option (State Thread Address Element) :=
  match state.sema.pcs thread with
  | .outside => some (state.threadAt thread returned)
  | _ => (LightweightSemaphore.advance state.sema thread spurious).map fun sema => { state with sema }

/-- The pool gives no block that a producer holds. -/
def Gives : Option Address → Prop
  | none => True
  | some block => ∀ ptr, block ∉ (state.producers ptr).held

instance [Fintype Thread] : (block : Option Address) → Decidable (state.Gives block)
  | none => inferInstanceAs (Decidable True)
  | some block => inferInstanceAs (Decidable (∀ ptr, block ∉ (state.producers ptr).held))

/-- A step in `enqueue` of the thread's own producer. -/
def produce (noexceptCtor : Bool) (thread : Thread) (outcome : ImplicitProducer.Outcome Address) :
    Option (State Thread Address Element) :=
  (ImplicitProducer.produce noexceptCtor (state.producers thread) outcome).map (state.setProducer thread)

/-- A step in `inner.enqueue`, or the return from it. -/
def inEnqueue [Fintype Thread] (noexceptCtor : Bool) (thread : Thread) (outcome : ImplicitProducer.Outcome Address) :
    Option (State Thread Address Element) :=
  match (state.producers thread).producer with
  | .outside true =>
      some ({ state with sema := state.sema.threadAt thread (LightweightSemaphore.Call.signal 1).pc }.threadAt
        thread .signal)
  | .outside false => some (state.threadAt thread (.outside none))
  | .requisitionBlock _ _ => if state.Gives outcome.block then state.produce noexceptCtor thread outcome else none
  | _ => state.produce noexceptCtor thread outcome

end State

variable [Fintype Thread]

def advance (noexceptCtor : Bool) (state : State Thread Address Element) (thread : Thread)
    (outcome : ImplicitProducer.Outcome Address) (spurious : Bool) : Option (State Thread Address Element) :=
  match state.pcs thread with
  | .outside _ => none
  | .enqueue => state.inEnqueue noexceptCtor thread outcome
  | .signal => state.inSemaphore thread spurious (.outside none)
  | .wait => state.inSemaphore thread spurious .producerListTail
  | .producerListTail => some (state.scanFrom thread .start state.producerList)
  | .sizeTail scan ptr rest => some (state.threadAt thread (.sizeHead scan ptr rest (state.producers ptr).tailIndex))
  | .sizeHead scan ptr rest tail =>
      some (state.scanFrom thread (scan.see ptr (sizeApprox tail (state.producers ptr).headIndex)) rest)
  | .dequeueBest best => state.inDequeue thread best (state.threadAt thread (.secondListTail best))
  | .secondListTail best => some (state.tryFrom thread best state.producerList)
  | .dequeueOther best ptr rest => state.inDequeue thread ptr (state.tryFrom thread best rest)

inductive Label (Thread Address Element : Type) where
  | enqueue (thread : Thread) (element : Element) (created : Bool)
  | waitDequeue (thread : Thread)
  | advance (thread : Thread) (outcome : ImplicitProducer.Outcome Address) (spurious : Bool)

/-- A call of `enqueue` of the thread's own producer. -/
def callEnqueue (noexceptCtor : Bool) (state : State Thread Address Element) (thread : Thread) (element : Element) :
    Option (State Thread Address Element) :=
  (ImplicitProducer.step noexceptCtor (state.producers thread) (.enqueue element)).map fun producer =>
    (state.setProducer thread producer).threadAt thread .enqueue

def step (noexceptCtor : Bool) (state : State Thread Address Element) :
    Label Thread Address Element → Option (State Thread Address Element)
  | .enqueue thread element created =>
      match state.pcs thread with
      | .outside _ =>
          if thread ∈ state.producerList then callEnqueue noexceptCtor state thread element
          else if created then
            callEnqueue noexceptCtor { state with producerList := thread :: state.producerList } thread element
          else some (state.threadAt thread (.outside none))
      | _ => none
  | .waitDequeue thread =>
      match state.pcs thread with
      | .outside _ =>
          some ({ state with sema := state.sema.threadAt thread (LightweightSemaphore.Call.waitMany 1).pc }.threadAt
            thread .wait)
      | _ => none
  | .advance thread outcome spurious => advance noexceptCtor state thread outcome spurious

/-- The queue and its threads, in any interleaving. -/
def system (noexceptCtor : Bool) : System (State Thread Address Element) (Label Thread Address Element) where
  start state := ∃ blocks, state = .initial blocks
  step := step noexceptCtor

end Ndnperf.Cxx.BlockingConcurrentQueue

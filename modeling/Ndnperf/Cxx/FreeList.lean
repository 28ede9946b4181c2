import Ndnperf.Library.Transition
import Ndnperf.Library.Word

namespace Ndnperf.Cxx.FreeList

open Library.Word Library.Transition

/-! `FreeList` in `concurrentqueue.h`, which keeps the blocks that no producer
holds. Each step of a thread is one access to a member that is shared. -/

def refsMask : Nat := 0x7FFFFFFF

def shouldBeOnFreelist : Nat := 0x80000000

/-- Where `add_knowing_refcount_is_zero` returns to: out of `add`, or into the
loop of `try_get` with the head that it goes on with. -/
inductive Continuation (Node : Type) where
  | add
  | tryGet (head : Option Node)

/-- Where a thread is: outside, with the result of its last call; before the
`fetch_add` in `add`; before an access in `add_knowing_refcount_is_zero`; or
before an access in `try_get`, up to the `fetch_add` that returns a reference. -/
inductive Pc (Node : Type) where
  | outside (result : Option Node)
  | addRefs (node : Node)
  | loadHead (node : Node) (returns : Continuation Node)
  | storeNext (node : Node) (head : Option Node) (returns : Continuation Node)
  | storeRefs (node : Node) (head : Option Node) (returns : Continuation Node)
  | pushHead (node : Node) (head : Option Node) (returns : Continuation Node)
  | restoreRefs (node : Node) (head : Option Node) (returns : Continuation Node)
  | getHead
  | loadRefs (head : Node)
  | takeRef (head : Node) (refs : Nat)
  | loadNext (head : Node)
  | popHead (head : Node) (next : Option Node)
  | checkRefs (head : Node)
  | dropRefs (head : Node)
  | returnRef (prevHead : Node) (head : Option Node)

/-- `while (head != nullptr)` in `try_get`. -/
def Pc.loop {Node : Type} : Option Node → Pc Node
  | some head => .loadRefs head
  | none => .outside none

def Continuation.pc {Node : Type} : Continuation Node → Pc Node
  | .add => .outside none
  | .tryGet head => .loop head

/-- The list with the fields of its nodes, and where each thread is; `failed`
once the assertion in `try_get` does not hold. Which nodes the callers have is a
record of the past. -/
structure State (Thread Node : Type) where
  freeListHead : Option Node
  freeListNext : Node → Option Node
  freeListRefs : Node → Nat
  pcs : Thread → Pc Node
  failed : Bool
  out : Node → Bool

variable {Thread Node : Type} [DecidableEq Thread] [DecidableEq Node]

/-- No node has been added yet. -/
def State.initial : State Thread Node where
  freeListHead := none
  freeListNext _ := none
  freeListRefs _ := 0
  pcs _ := .outside none
  failed := false
  out _ := true

namespace State

variable (state : State Thread Node)

def threadAt (thread : Thread) (pc : Pc Node) : State Thread Node :=
  { state with pcs := Function.update state.pcs thread pc }

def setRefs (node : Node) (refs : Nat) : State Thread Node :=
  { state with freeListRefs := Function.update state.freeListRefs node refs }

def fetchAdd (node : Node) (amount : Int) : State Thread Node :=
  state.setRefs node (uint32 (state.freeListRefs node + amount))

end State

def advance (state : State Thread Node) (thread : Thread) : Option (State Thread Node) :=
  match state.pcs thread with
  | .outside _ => none
  | .addRefs node =>
      some ((state.fetchAdd node shouldBeOnFreelist).threadAt thread
        (if state.freeListRefs node = 0 then .loadHead node .add else .outside none))
  | .loadHead node returns => some (state.threadAt thread (.storeNext node state.freeListHead returns))
  | .storeNext node head returns =>
      some ({ state with freeListNext := Function.update state.freeListNext node head }.threadAt thread
        (.storeRefs node head returns))
  | .storeRefs node head returns => some ((state.setRefs node 1).threadAt thread (.pushHead node head returns))
  | .pushHead node head returns =>
      if state.freeListHead = head then some ({ state with freeListHead := some node }.threadAt thread returns.pc)
      else some (state.threadAt thread (.restoreRefs node state.freeListHead returns))
  | .restoreRefs node head returns =>
      some ((state.fetchAdd node (shouldBeOnFreelist - 1)).threadAt thread
        (if state.freeListRefs node = 1 then .storeNext node head returns else returns.pc))
  | .getHead => some (state.threadAt thread (.loop state.freeListHead))
  | .loadRefs head =>
      some (state.threadAt thread
        (if state.freeListRefs head &&& refsMask = 0 then .getHead else .takeRef head (state.freeListRefs head)))
  | .takeRef head refs =>
      if state.freeListRefs head = refs then some
        ((state.setRefs head (uint32 (refs + 1))).threadAt thread (.loadNext head))
      else some (state.threadAt thread .getHead)
  | .loadNext head => some (state.threadAt thread (.popHead head (state.freeListNext head)))
  | .popHead head next =>
      if state.freeListHead = some head then some
        ({ state with freeListHead := next }.threadAt thread (.checkRefs head))
      else some (state.threadAt thread (.returnRef head state.freeListHead))
  | .checkRefs head =>
      if state.freeListRefs head &&& shouldBeOnFreelist = 0 then some (state.threadAt thread (.dropRefs head))
      else some { state with failed := true }
  | .dropRefs head =>
      some ({ state.fetchAdd head (-2) with out := Function.update state.out head true }.threadAt thread
        (.outside (some head)))
  | .returnRef prevHead head =>
      some ((state.fetchAdd prevHead (-1)).threadAt thread
        (if state.freeListRefs prevHead = shouldBeOnFreelist + 1 then .loadHead prevHead (.tryGet head)
          else .loop head))

inductive Label (Thread Node : Type) where
  | add (thread : Thread) (node : Node)
  | tryGet (thread : Thread)
  | advance (thread : Thread)

/-- Only a node that the callers have is added. -/
def step (state : State Thread Node) : Label Thread Node → Option (State Thread Node)
  | .add thread node =>
      match state.pcs thread with
      | .outside _ =>
          if state.out node = true then
            some ({ state with out := Function.update state.out node false }.threadAt thread (.addRefs node))
          else none
      | _ => none
  | .tryGet thread =>
      match state.pcs thread with
      | .outside _ => some (state.threadAt thread .getHead)
      | _ => none
  | .advance thread => advance state thread

/-- The free list and the threads that call it, in any interleaving. -/
def system : System (State Thread Node) (Label Thread Node) where
  start state := state = .initial
  step := step

end Ndnperf.Cxx.FreeList

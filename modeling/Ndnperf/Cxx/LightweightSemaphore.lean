import Mathlib.Data.Fintype.Basic
import Ndnperf.Library.Transition
import Ndnperf.Library.Word

namespace Ndnperf.Cxx.LightweightSemaphore

open Library.Word Library.Transition

/-! `LightweightSemaphore` in `blockingconcurrentqueue.h`: the atomic steps of
`signal` and of the calls that wait. Atomics are sequentially consistent;
`wait` and `tryWait` are `waitMany` and `tryWaitMany` for a single permit. -/

/-- What becomes of the result of `tryWaitMany`: it is returned, `waitMany` waits
if it is zero, or it adds to the permit that a wait has already brought. -/
inductive Continuation where
  | result
  | wait
  | rest
deriving DecidableEq, Repr

/-- Where a thread is: outside, before `m_count.load`, at the test of the loop
of `tryWaitMany` with its `compare_exchange_weak`, before the load of one of the
`spin` rounds that are left or before `fetch_sub` where none is, before
`compare_exchange_strong`, in `m_sema.wait`, before `fetch_add`, or with `left`
of the calls of `sem_post` still to come. -/
inductive Pc where
  | outside
  | load (max : Nat) (next : Continuation)
  | exchangeWeak (max : Nat) (next : Continuation) (oldCount : Int)
  | spin (max spin : Nat)
  | exchangeStrong (max spin : Nat) (oldCount : Int)
  | semaWait (max : Nat)
  | fetchAdd (count : Nat)
  | post (left : Nat)
deriving DecidableEq, Repr

inductive Call where
  | tryWaitMany (max : Nat)
  | waitMany (max : Nat)
  | signal (count : Nat)
deriving DecidableEq, Repr

def Call.pc : Call → Pc
  | .tryWaitMany max => .load max .result
  | .waitMany max => .load max .wait
  | .signal count => .fetchAdd count

/-- `m_count`, the value of the semaphore `m_sema` of the system, and where each
thread is. The rest is a record of the past: the permits that there were and
that were signalled, and what the finished calls of each thread returned in all. -/
structure State (Thread : Type) where
  count : Int
  sema : Nat
  pcs : Thread → Pc
  signalled : Nat
  returned : Thread → Nat

variable {Thread : Type} [DecidableEq Thread]

def State.initial (initialCount : Nat) : State Thread where
  count := initialCount
  sema := 0
  pcs _ := .outside
  signalled := initialCount
  returned _ := 0

/-- `SEM_VALUE_MAX`. -/
def semValueMax : Nat := 2 ^ 31 - 1

def spinCount : Nat := 10000

/-- What `tryWaitMany` leaves of the permits it has found. -/
def newCount (oldCount : Int) (max : Nat) : Int := if oldCount > max then oldCount - max else 0

/-- How many of the threads in `m_sema.wait` a call of `signal` lets go. -/
def toRelease (oldCount : Int) (count : Nat) : Int := if -oldCount < count then -oldCount else count

namespace State

variable (state : State Thread) (thread : Thread)

def threadAt (pc : Pc) : State Thread := { state with pcs := Function.update state.pcs thread pc }

def returns (result : Nat) : State Thread :=
  { state with
    pcs := Function.update state.pcs thread .outside
    returned := Function.update state.returned thread (state.returned thread + result) }

/-- The end of `tryWaitMany`. -/
def finish (max : Nat) (next : Continuation) (result : Nat) : State Thread :=
  match next with
  | .result => state.returns thread result
  | .wait => if result = 0 ∧ max > 0 then state.threadAt thread (.spin max spinCount) else state.returns thread result
  | .rest => state.returns thread (1 + result)

/-- The end of `waitManyWithPartialSpinning`. -/
def woken (max : Nat) : State Thread :=
  if max > 1 then state.threadAt thread (.load (max - 1) .rest) else state.returns thread 1

@[simp] theorem threadAt_signalled (pc : Pc) : (state.threadAt thread pc).signalled = state.signalled := rfl

@[simp] theorem returns_signalled (result : Nat) : (state.returns thread result).signalled = state.signalled := rfl

@[simp] theorem finish_signalled (max : Nat) (next : Continuation) (result : Nat) :
    (state.finish thread max next result).signalled = state.signalled := by
  cases next with
  | result | rest => rfl
  | wait =>
      rw [finish]
      split <;> rfl

@[simp] theorem woken_signalled (max : Nat) : (state.woken thread max).signalled = state.signalled := by
  rw [woken]
  split <;> rfl

end State

/-- A step of a thread. `compare_exchange_weak` may fail although it finds what
it expects, and `sem_post` fails at `SEM_VALUE_MAX`. -/
def advance (state : State Thread) (thread : Thread) (spurious : Bool) : Option (State Thread) :=
  match state.pcs thread with
  | .outside => none
  | .load max next => some (state.threadAt thread (.exchangeWeak max next state.count))
  | .exchangeWeak max next oldCount =>
      if oldCount > 0 then
        if state.count = oldCount ∧ spurious = false then
          some ({ state with count := newCount oldCount max }.finish thread max next
            (oldCount - newCount oldCount max).toNat)
        else some (state.threadAt thread (.exchangeWeak max next state.count))
      else some (state.finish thread max next 0)
  | .spin max (spin + 1) =>
      if state.count > 0 then some (state.threadAt thread (.exchangeStrong max spin state.count))
      else some (state.threadAt thread (.spin max spin))
  | .exchangeStrong max spin oldCount =>
      if state.count = oldCount then
        some ({ state with count := newCount oldCount max }.returns thread (oldCount - newCount oldCount max).toNat)
      else some (state.threadAt thread (.spin max spin))
  | .spin max 0 =>
      if state.count ≤ 0 then some ({ state with count := int64 (state.count - 1) }.threadAt thread (.semaWait max))
      else some ({ state with count := int64 (state.count - 1) }.woken thread max)
  | .semaWait max => if 0 < state.sema then some ({ state with sema := state.sema - 1 }.woken thread max) else none
  | .fetchAdd count =>
      let next := { state with count := int64 (state.count + count), signalled := state.signalled + count }
      if toRelease state.count count > 0 then
        some (next.threadAt thread (.post (int32 (toRelease state.count count)).toNat))
      else some (next.threadAt thread .outside)
  | .post (left + 1) =>
      some ({ state with sema := if state.sema < semValueMax then state.sema + 1 else state.sema }.threadAt thread
        (.post left))
  | .post 0 => some (state.threadAt thread .outside)

/-- The permits that the next step of a thread signals. -/
def Pc.signals : Pc → Nat
  | .fetchAdd count => count
  | _ => 0

theorem signalled_of_advance {before after : State Thread} {thread : Thread} {spurious : Bool}
    (moved : advance before thread spurious = some after) :
    after.signalled = before.signalled + (before.pcs thread).signals := by
  cases here : before.pcs thread with
  | outside => simp only [advance, here, reduceCtorEq] at moved
  | load =>
      simp only [advance, here, Option.some.injEq] at moved
      simp [← moved, Pc.signals]
  | semaWait =>
      simp only [advance, here, Option.some.injEq, Option.ite_none_right_eq_some] at moved
      simp [← moved.2, Pc.signals]
  | exchangeWeak =>
      simp only [advance, here] at moved
      split at moved
      · split at moved <;> simp [← Option.some.inj moved, Pc.signals]
      · simp [← Option.some.inj moved, Pc.signals]
  | spin max spin =>
      cases spin <;> simp only [advance, here] at moved <;> split at moved <;>
        simp [← Option.some.inj moved, Pc.signals]
  | exchangeStrong | fetchAdd =>
      simp only [advance, here] at moved
      split at moved <;> simp [← Option.some.inj moved, Pc.signals]
  | post left =>
      cases left <;> simp only [advance, here, Option.some.injEq] at moved <;> simp [← moved, Pc.signals]

/-- `compare_exchange_strong` is tried for a positive count only. -/
def Pc.Positive : Pc → Prop
  | .exchangeStrong _ _ oldCount => 0 < oldCount
  | _ => True

theorem State.finish_pcs {state : State Thread} {thread : Thread} {max result : Nat} {next : Continuation} :
    ∃ pc, (state.finish thread max next result).pcs = Function.update state.pcs thread pc ∧ pc.Positive := by
  cases next with
  | result | rest => exact ⟨_, rfl, trivial⟩
  | wait =>
      rw [finish]
      split <;> exact ⟨_, rfl, trivial⟩

theorem State.woken_pcs {state : State Thread} {thread : Thread} {max : Nat} :
    ∃ pc, (state.woken thread max).pcs = Function.update state.pcs thread pc ∧ pc.Positive := by
  rw [woken]
  split <;> exact ⟨_, rfl, trivial⟩

/-- The other threads stay where they are. -/
theorem pcs_of_advance {before after : State Thread} {thread : Thread} {spurious : Bool}
    (moved : advance before thread spurious = some after) :
    ∃ pc, after.pcs = Function.update before.pcs thread pc ∧ pc.Positive := by
  unfold advance at moved
  split at moved
  · cases moved
  · exact Option.some.inj moved ▸ ⟨_, rfl, trivial⟩
  · split at moved
    · split at moved
      · exact Option.some.inj moved ▸ State.finish_pcs
      · exact Option.some.inj moved ▸ ⟨_, rfl, trivial⟩
    · exact Option.some.inj moved ▸ State.finish_pcs
  · split at moved
    · rename_i found
      exact Option.some.inj moved ▸ ⟨_, rfl, found⟩
    · exact Option.some.inj moved ▸ ⟨_, rfl, trivial⟩
  · split at moved
    · exact Option.some.inj moved ▸ ⟨_, rfl, trivial⟩
    · exact Option.some.inj moved ▸ ⟨_, rfl, trivial⟩
  · split at moved
    · exact Option.some.inj moved ▸ ⟨_, rfl, trivial⟩
    · exact Option.some.inj moved ▸ State.woken_pcs
  · split at moved
    · exact Option.some.inj moved ▸ State.woken_pcs
    · cases moved
  · dsimp only at moved
    split at moved <;> exact Option.some.inj moved ▸ ⟨_, rfl, trivial⟩
  · exact Option.some.inj moved ▸ ⟨_, rfl, trivial⟩
  · exact Option.some.inj moved ▸ ⟨_, rfl, trivial⟩

inductive Label (Thread : Type) where
  | call (thread : Thread) (call : Call)
  | move (thread : Thread) (spurious : Bool)
deriving DecidableEq, Repr

def step (state : State Thread) : Label Thread → Option (State Thread)
  | .call thread call => if state.pcs thread = .outside then some (state.threadAt thread call.pc) else none
  | .move thread spurious => advance state thread spurious

/-- A semaphore and its threads, in any interleaving. -/
def system (initialCount : Nat) : System (State Thread) (Label Thread) where
  start state := state = .initial initialCount
  step := step

variable {before after : State Thread} {label : Label Thread}

theorem signalled_of_step (moved : step before label = some after) : before.signalled ≤ after.signalled := by
  cases label with
  | call thread call =>
      simp only [step, Option.ite_none_right_eq_some, Option.some.injEq] at moved
      rw [← moved.2]
      exact Nat.le_refl _
  | move thread spurious => exact signalled_of_advance moved ▸ Nat.le_add_right _ _

theorem positive_of_step (positive : ∀ other, (before.pcs other).Positive) (moved : step before label = some after)
    (other : Thread) : (after.pcs other).Positive := by
  have updated : ∃ thread pc, after.pcs = Function.update before.pcs thread pc ∧ pc.Positive := by
    cases label with
    | call thread call =>
        simp only [step, Option.ite_none_right_eq_some, Option.some.injEq] at moved
        rw [← moved.2]
        cases call <;> exact ⟨thread, _, rfl, trivial⟩
    | move thread spurious => exact ⟨thread, pcs_of_advance moved⟩
  obtain ⟨thread, pc, pcs, here⟩ := updated
  rw [pcs]
  by_cases same : other = thread
  · rw [same, Function.update_self]
    exact here
  · rw [Function.update_of_ne same]
    exact positive other

end Ndnperf.Cxx.LightweightSemaphore

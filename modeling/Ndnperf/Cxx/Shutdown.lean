import Ndnperf.Library.Threads
import Ndnperf.Cxx.Threads

namespace Ndnperf.Cxx.Threads

open Ndn Library.Outcome Library.Threads Library.Transition

variable {ndn : NdnCxx} {server : Server} {workers : Nat} {state before after : State workers} {label : Label workers}
  {thread : Fin workers} {name : Name}

/-! ## Shutting down -/

/-- The dummies that `stop` has not enqueued yet. -/
def StopPc.left (workers : Nat) : StopPc → Nat
  | .running | .halt => workers
  | .enqueue left => left
  | .join | .joined => 0

/-- The loop of `stop` has enqueued a dummy for each worker. -/
def StopPc.enqueued : StopPc → Bool
  | .enqueue 0 | .join | .joined => true
  | .running | .halt | .enqueue (_ + 1) => false

/-- After `_stop` is set, the queue and the dummies to come are enough for the
workers that have tested it before. -/
structure Winding (state : State workers) : Prop where
  flag : state.stop = true ↔ state.stopping ≠ .running
  halted : state.ioStopped = true ↔ state.stopping ≠ .running ∧ state.stopping ≠ .halt
  enough : state.stop = true → threadsAt (· = .dequeue) state.pcs ≤ state.queue.length + state.stopping.left workers
  early : state.stop = false → ∀ thread, state.late thread = 0
  late : ∀ thread, state.late thread + (if state.pcs thread = .dequeue then 1 else 0) ≤ 1
  closed : ∀ thread, (state.rows thread).file.isOpen = false

theorem winding_initial (buffers : Fin workers → List UInt8) : Winding (.initial buffers) where
  flag := by simp [State.initial]
  halted := by simp [State.initial]
  enough := by simp [State.initial]
  early _ _ := rfl
  late _ := by simp [State.initial]
  closed _ := rfl

/-- A worker that goes elsewhere than into `wait_dequeue`. -/
theorem Winding.leave {pc : WorkerPc} (winding : Winding before) (going : pc ≠ .dequeue)
    (busy : before.pcs thread ≠ .dequeue) : Winding (before.workerAt thread pc) := by
  refine { winding with enough := fun stopped => ?_, late := fun other => ?_ }
  · have enough := winding.enough stopped
    have counted := threadsAt_update (· = WorkerPc.dequeue) before.pcs thread pc
    simp only [busy, going, if_false, Nat.add_zero] at counted
    rw [← counted] at enough
    exact enough
  · have late := winding.late other
    simp only [State.workerAt]
    by_cases same : other = thread
    · subst same
      simpa only [Function.update_self, busy, going, if_false] using late
    · simpa only [Function.update_of_ne same] using late

theorem Winding.follow {pc : WorkerPc} (winding : Winding before) (follows : Follows (before.pcs thread) pc) :
    Winding (before.workerAt thread pc) := by
  generalize here : before.pcs thread = earlier at follows
  cases follows <;> exact winding.leave (by simp) (by simp [here])

theorem Winding.works {added : Option (Fin workers × Counter × Nat)} (winding : Winding before)
    (worked : Works before thread added after) : Winding after := by
  cases worked with
  | tested here =>
      have busy : before.pcs thread ≠ .dequeue := by simp [here]
      cases flag : before.stop with
      | true => exact winding.leave (by simp) busy
      | false =>
          simp only [Bool.false_eq_true, if_false]
          refine { winding with enough := fun stopped => ?_, late := fun other => ?_ }
          · exact absurd (flag.symm.trans stopped) (by decide)
          · have early := winding.early flag other
            change before.late other + _ ≤ 1
            rw [early]
            split <;> omega
  | @took name pick here found =>
      have inside : pick < before.queue.length := (List.getElem?_eq_some_iff.mp found).1
      refine { winding with enough := fun stopped => ?_, early := fun flag => ?_, late := fun other => ?_ }
      · have enough := winding.enough stopped
        have counted := threadsAt_update (· = WorkerPc.dequeue) before.pcs thread (.queued name)
        simp only [here, if_true, reduceCtorEq, if_false] at counted
        simp only [State.workerAt, List.length_eraseIdx, if_pos inside]
        omega
      · have flag : before.stop = false := flag
        simpa only [State.workerAt, flag, Bool.false_eq_true, if_false] using winding.early flag
      · have late := winding.late other
        simp only [State.workerAt]
        by_cases same : other = thread
        · subst same
          simp only [here, if_true, Function.update_self, reduceCtorEq, if_false] at late ⊢
          split
          · simp only [Function.update_self]
            omega
          · omega
        · simp only [Function.update_of_ne same]
          split <;> simpa only [Function.update_of_ne same] using late
  | grew sent follows adds closes =>
      refine { winding.follow follows with closed := fun other => ?_ }
      simp only [State.grow, State.workerAt]
      by_cases same : other = thread
      · subst same
        simpa only [Function.update_self] using closes (winding.closed _)
      · simpa only [Function.update_of_ne same] using winding.closed other
  | threw fault => exact { winding with }

theorem Winding.stops (winding : Winding before) (moved : stopStep ndn server before = some after) : Winding after := by
  have flag := winding.flag
  have halted := winding.halted
  have enough := winding.enough
  rcases here : before.stopping with _ | _ | ⟨_ | left⟩ | _ | _ <;>
    simp only [here, ne_eq, reduceCtorEq, not_true_eq_false, not_false_eq_true, and_false, and_true, iff_true,
      iff_false, StopPc.left] at flag halted enough
  · simp only [stopStep, here, Option.some.injEq] at moved
    have all : threadsAt (· = WorkerPc.dequeue) before.pcs ≤ workers :=
      (threadsAt_le_card _ _).trans (Fintype.card_fin workers).le
    subst moved
    exact { winding with
      flag := by simp
      halted := by simpa using halted
      enough := fun _ => all.trans (Nat.le_add_left _ _)
      early := by simp }
  · simp only [stopStep, here, Option.some.injEq] at moved
    subst moved
    exact { winding with flag := by simpa using flag, halted := by simp, enough }
  · simp only [stopStep, here, Option.some.injEq] at moved
    subst moved
    exact { winding with flag := by simpa using flag, halted := by simpa using halted, enough }
  · simp only [stopStep, here, Option.some.injEq] at moved
    subst moved
    refine { winding with flag := by simpa using flag, halted := by simpa using halted, enough := fun stopped => ?_ }
    have enough := enough stopped
    simp only [StopPc.left, List.length_append, List.length_singleton]
    omega
  · simp only [stopStep, here, Option.ite_none_right_eq_some, Option.some.injEq] at moved
    obtain ⟨_, rfl⟩ := moved
    exact { winding with flag := by simpa using flag, halted := by simpa using halted, enough }
  · simp only [stopStep, here] at moved
    cases moved

theorem Winding.displays (winding : Winding before) (moved : displayStep before = some after) : Winding after := by
  unfold displayStep at moved
  split at moved
  · split at moved <;> exact Option.some.inj moved ▸ { winding with }
  · exact Option.some.inj moved ▸ { winding with }
  · exact Option.some.inj moved ▸ { winding with }
  · cases moved

theorem winding_inductive : (system ndn server : System (State workers) (Label workers)).Inductive Winding where
  start := by
    intro state begun
    obtain ⟨buffers, rfl⟩ := begun
    exact winding_initial buffers
  step := by
    intro before label after winding moved
    simp only [system, step] at moved
    split at moved
    · cases moved
    · cases label with
      | onInterest name =>
          simp only [Option.ite_none_right_eq_some, Option.some.injEq] at moved
          obtain ⟨_, rfl⟩ := moved
          refine { winding with enough := fun stopped => ?_ }
          have enough := winding.enough stopped
          simp only [List.length_append]
          omega
      | face =>
          simp only [Option.ite_none_right_eq_some, Option.some.injEq] at moved
          obtain ⟨_, rfl⟩ := moved
          exact { winding with }
      | stop => exact winding.stops moved
      | worker thread pick fileSystem duration => exact winding.works (works_of_step moved)
      | display => exact winding.displays moved

theorem Winding.stopped (winding : Winding state) (enqueued : state.stopping.enqueued = true) : state.stop = true := by
  rw [winding.flag]
  intro running
  rw [running] at enqueued
  cases enqueued

/-! ## All threads can be joined -/

/-- The steps a worker still makes once `_stop` is set. -/
def WorkerPc.rest : WorkerPc → Nat
  | .dequeue => 6
  | .queued _ => 5
  | .answer _ => 4
  | .count => 3
  | .time => 2
  | .test => 1
  | .exited => 0

def DisplayPc.rest : DisplayPc workers → Nat
  | .read left => left.length + 2
  | .test => 1
  | .exited => 0

def StopPc.rest : StopPc → Nat
  | .enqueue left => left + 2
  | .join => 1
  | .running | .halt | .joined => 0

def rest (state : State workers) : Nat :=
  (∑ thread, (state.pcs thread).rest) + state.display.rest + (if state.face then 1 else 0) + state.stopping.rest

/-- An element that a worker has, or can still take. -/
def Held (state : State workers) (name : Name) : Prop :=
  name ∈ state.queue ∨ ∃ thread, state.pcs thread = .queued name ∨ state.pcs thread = .answer name

/-- After the loop of `stop`, when nothing has thrown and every element can be answered. -/
structure Closing (ndn : NdnCxx) (server : Server) (state : State workers) : Prop where
  winding : Winding state
  enqueued : state.stopping.enqueued = true
  alive : state.terminated = none
  finishes : ∀ name, Held state name → ∃ fileSystem, server.Answerable ndn fileSystem name

/-- The steps of the program itself, without further Interests. -/
def Own (label : Label workers) : Prop := ∀ name, label ≠ .onInterest name

def Closer (ndn : NdnCxx) (server : Server) (before : State workers) : Prop :=
  (system ndn server).CanReach Own (fun after => Closing ndn server after ∧ rest after < rest before) before

theorem StopPc.left_of_enqueued {stopping : StopPc} (enqueued : stopping.enqueued = true) :
    stopping.left workers = 0 := by
  rcases stopping with _ | _ | ⟨_ | left⟩ | _ | _
  all_goals first | rfl | cases enqueued

/-- No worker waits for an element that does not come. -/
theorem Winding.queue_ne_nil (winding : Winding state) (enqueued : state.stopping.enqueued = true)
    (here : state.pcs thread = .dequeue) : state.queue ≠ [] := by
  have enough := winding.enough (winding.stopped enqueued)
  have waiting := @threadsAt_pos _ _ _ (· = WorkerPc.dequeue) _ state.pcs thread here
  rw [StopPc.left_of_enqueued enqueued] at enough
  intro empty
  rw [empty] at enough
  simp only [List.length_nil] at enough
  omega

theorem Closing.enabled (closing : Closing ndn server before) (busy : before.pcs thread ≠ .exited) :
    ∃ fileSystem after, workerStep ndn server before thread 0 fileSystem 0 = some after ∧ after.terminated = none := by
  have alive := closing.alive
  cases here : before.pcs thread with
  | test | queued | count | time =>
      exact ⟨fun _ => none, by simp [workerStep, here, State.workerAt, State.grow, alive]⟩
  | dequeue =>
      obtain ⟨name, rest, queued⟩ := List.exists_cons_of_ne_nil
        (closing.winding.queue_ne_nil closing.enqueued here)
      exact ⟨fun _ => none, by simp [workerStep, here, queued, State.workerAt, alive]⟩
  | answer name =>
      obtain ⟨fileSystem, answerable⟩ := closing.finishes name (.inr ⟨thread, .inr here⟩)
      obtain ⟨⟨data, row⟩, answered⟩ := (Server.succeeds_answer (closing.winding.closed thread)).mpr answerable
      exact ⟨fileSystem, by simp [workerStep, here, answered, State.workerAt, State.grow, alive]⟩
  | exited => exact (busy here).elim

/-- What a step of a worker leaves to be done. -/
structure Nearer (before after : State workers) (thread : Fin workers) : Prop where
  pcs : ∃ pc, after.pcs = Function.update before.pcs thread pc ∧ pc.rest < (before.pcs thread).rest ∧
    ∀ name, pc = .queued name ∨ pc = .answer name → Held before name
  queue : ∀ name ∈ after.queue, name ∈ before.queue
  display : after.display = before.display
  face : after.face = before.face
  stopping : after.stopping = before.stopping

theorem nearer_of_works {added : Option (Fin workers × Counter × Nat)} (stopped : before.stop = true)
    (worked : Works before thread added after) (alive : after.terminated = none) : Nearer before after thread := by
  cases worked with
  | tested here =>
      refine ⟨⟨_, rfl, ?_, ?_⟩, fun _ => id, rfl, rfl, rfl⟩
      · simp [here, stopped, WorkerPc.rest]
      · simp [stopped]
  | took here found =>
      refine ⟨⟨_, rfl, ?_, fun name own => ?_⟩, fun _ => List.mem_of_mem_eraseIdx, rfl, rfl, rfl⟩
      · simp [here, WorkerPc.rest]
      · obtain same | same := own
        · cases same
          exact .inl (List.mem_of_getElem? found)
        · cases same
  | grew sent follows adds closes =>
      refine ⟨⟨_, rfl, ?_, fun name own => ?_⟩, fun _ => id, rfl, rfl, rfl⟩
      · generalize before.pcs thread = here at follows
        cases follows <;> simp [WorkerPc.rest]
      · generalize here : before.pcs thread = pc at follows
        cases follows with
        | queued other =>
            obtain same | same := own
            · cases same
            · cases same
              exact .inr ⟨thread, .inl here⟩
        | answer | count | time => simp at own
  | threw fault => cases alive

theorem Closing.work (closing : Closing ndn server before) (busy : before.pcs thread ≠ .exited) :
    Closer ndn server before := by
  obtain ⟨fileSystem, after, moved, alive⟩ := closing.enabled busy
  obtain ⟨⟨pc, pcs, less, own⟩, queue, display, face, stopping⟩ :=
    nearer_of_works (closing.winding.stopped closing.enqueued) (works_of_step moved) alive
  have stepped : (system ndn server).step before (.worker thread 0 fileSystem 0) = some after := by
    simpa only [system, step, closing.alive] using moved
  refine System.canReach_of_step (fun _ => by simp) stepped
    ⟨⟨winding_inductive.step closing.winding stepped, stopping ▸ closing.enqueued, alive, ?_⟩, ?_⟩
  · intro name held
    apply closing.finishes
    obtain waiting | ⟨other, holds⟩ := held
    · exact .inl (queue name waiting)
    · rw [pcs] at holds
      by_cases same : other = thread
      · subst same
        rw [Function.update_self] at holds
        exact own name holds
      · rw [Function.update_of_ne same] at holds
        exact .inr ⟨other, holds⟩
  · have counted := sum_weigh_update WorkerPc.rest before.pcs thread pc
    simp only [rest, pcs, display, face, stopping]
    omega

/-- A step that leaves the workers and the queue as they are. -/
theorem Closing.other {label : Label workers} (closing : Closing ndn server before) (own : Own label)
    (moved : (system ndn server).step before label = some after)
    (same : after.pcs = before.pcs ∧ after.queue = before.queue ∧ after.terminated = before.terminated)
    (enqueued : after.stopping.enqueued = true) (less : rest after < rest before) : Closer ndn server before := by
  obtain ⟨pcs, queue, terminated⟩ := same
  refine System.canReach_of_step own moved
    ⟨⟨winding_inductive.step closing.winding moved, enqueued, terminated.trans closing.alive, fun name held => ?_⟩,
      less⟩
  apply closing.finishes
  rw [Held, pcs, queue] at held
  exact held

theorem displayStep_nearer (stopped : before.stop = true) (moved : displayStep before = some after) :
    (after.pcs = before.pcs ∧ after.queue = before.queue ∧ after.terminated = before.terminated) ∧
      after.face = before.face ∧ after.stopping = before.stopping ∧ after.display.rest < before.display.rest := by
  rcases here : before.display with _ | ⟨_ | ⟨⟨thread, counter⟩, left⟩⟩ | _ <;>
    simp only [displayStep, here, stopped, if_true, Option.some.injEq, reduceCtorEq] at moved
  · subst moved
    exact ⟨⟨rfl, rfl, rfl⟩, rfl, rfl, Nat.zero_lt_one⟩
  · subst moved
    exact ⟨⟨rfl, rfl, rfl⟩, rfl, rfl, Nat.one_lt_two⟩
  · subst moved
    exact ⟨⟨rfl, rfl, rfl⟩, rfl, rfl, Nat.lt_succ_self _⟩

theorem displayStep_exists (displaying : before.display ≠ .exited) : ∃ after, displayStep before = some after := by
  unfold displayStep
  split
  · split <;> exact ⟨_, rfl⟩
  · exact ⟨_, rfl⟩
  · exact ⟨_, rfl⟩
  · contradiction

theorem Closing.display (closing : Closing ndn server before) (displaying : before.display ≠ .exited) :
    Closer ndn server before := by
  obtain ⟨after, moved⟩ := displayStep_exists displaying
  obtain ⟨same, face, stopping, less⟩ := displayStep_nearer (closing.winding.stopped closing.enqueued) moved
  have stepped : (system ndn server).step before .display = some after := by
    simpa only [system, step, closing.alive] using moved
  refine closing.other (fun _ => by simp) stepped same (stopping ▸ closing.enqueued) ?_
  simp only [rest, same.1, face, stopping]
  omega

theorem Closing.face (closing : Closing ndn server before) (listening : before.face = true) :
    Closer ndn server before := by
  have halted : before.ioStopped = true := by
    rw [closing.winding.halted]
    constructor <;> intro here <;> have enqueued := closing.enqueued <;> rw [here] at enqueued <;> cases enqueued
  have stepped : (system ndn server).step before .face = some { before with face := false } := by
    simp only [system, step, closing.alive, halted, listening, and_self, if_true]
  refine closing.other (fun _ => by simp) stepped ⟨rfl, rfl, rfl⟩ closing.enqueued ?_
  simp only [rest, listening, if_true, Bool.false_eq_true, if_false]
  omega

/-- The last steps of `stop`, once every thread has ended. -/
theorem Closing.join (closing : Closing ndn server before) (exited : Exited before)
    (waiting : before.stopping ≠ .joined) :
    Closer ndn server before := by
  have enqueued := closing.enqueued
  rcases here : before.stopping with _ | _ | ⟨_ | left⟩ | _ | _
  · simp [here, StopPc.enqueued] at enqueued
  · simp [here, StopPc.enqueued] at enqueued
  · have stepped : (system ndn server).step before .stop = some { before with stopping := .join } := by
      simp only [system, step, closing.alive, stopStep, here]
    refine closing.other (fun _ => by simp) stepped ⟨rfl, rfl, rfl⟩ rfl ?_
    simp only [rest, here, StopPc.rest]
    omega
  · simp [here, StopPc.enqueued] at enqueued
  · have stepped : (system ndn server).step before .stop = some { before with stopping := .joined } := by
      simp only [system, step, closing.alive, stopStep, here, if_pos exited]
    refine closing.other (fun _ => by simp) stepped ⟨rfl, rfl, rfl⟩ rfl ?_
    simp only [rest, here, StopPc.rest]
    omega
  · exact (waiting here).elim

theorem Closing.closer (closing : Closing ndn server before) (waiting : before.stopping ≠ .joined) :
    Closer ndn server before := by
  by_cases busy : ∃ thread, before.pcs thread ≠ .exited
  · obtain ⟨thread, busy⟩ := busy
    exact closing.work busy
  · by_cases displaying : before.display ≠ .exited
    · exact closing.display displaying
    · by_cases listening : before.face = true
      · exact closing.face listening
      · exact closing.join ⟨by simpa using busy, not_not.mp displaying, by simpa using listening⟩ waiting

/-- After the loop of `stop`, whatever was queued before, no worker waits on an
empty queue, none takes a second element, and all threads can be joined without
a further Interest, as long as the elements they have or take can be answered. -/
theorem workers_not_stranded (reached : (system ndn server).Reachable state) :
    (∀ thread, state.late thread ≤ 1) ∧ (state.stopping.enqueued = true →
      (∀ thread, state.pcs thread = .dequeue → state.queue ≠ []) ∧
        (state.terminated = none →
          (∀ name, Held state name → ∃ fileSystem, server.Answerable ndn fileSystem name) →
            (system ndn server).CanReach Own (fun after => after.stopping = .joined) state)) := by
  have winding := winding_inductive.reachable reached
  refine ⟨fun thread => (Nat.le_add_right _ _).trans (winding.late thread), fun enqueued => ?_⟩
  refine ⟨fun thread here => winding.queue_ne_nil enqueued here, fun alive finishes => ?_⟩
  have closing : Closing ndn server state := ⟨winding, enqueued, alive, finishes⟩
  exact System.canReach_of_measure rest (fun closing waiting => closing.closer waiting) closing

/-- The elements that `stop` enqueues can be answered under any file system. -/
theorem answerable_dummy (fileSystem : FileSystem) : server.Answerable ndn fileSystem (dummy ndn server) := by
  have plain : Plain (ascii "dummy") := by decide
  have named : dummy ndn server = server.namePrefix ++ [.generic (ascii "dummy")] :=
    congrArg (server.namePrefix ++ ·) (ndn.nameOfUri_plain _ plain)
  refine ⟨.generic (ascii "dummy"), by simp [named], fun chosen => ?_⟩
  rw [ndn.componentToUri_plain _ plain] at chosen
  exact absurd chosen (by decide)

/-- One worker that waits when `stop` begins. -/
theorem workers_not_stranded_sample :
    ∃ state : State 1, (system .reference (Server.sampleServer 4)).run (.initial fun _ => [])
        [.worker 0 0 (fun _ => none) 0, .stop, .stop, .stop, .stop] = some state ∧
      state.pcs 0 = .dequeue ∧ state.queue ≠ [] ∧
        (system .reference (Server.sampleServer 4)).CanReach Own (fun after => after.stopping = .joined) state := by
  have ran : ∃ state : State 1, (system .reference (Server.sampleServer 4)).run (.initial fun _ => [])
      [.worker 0 0 (fun _ => none) 0, .stop, .stop, .stop, .stop] = some state ∧ state.pcs 0 = .dequeue ∧
        state.stopping = .join ∧ state.terminated = none ∧ state.queue = [dummy .reference (Server.sampleServer 4)] ∧
          ∀ thread, state.pcs thread = .dequeue := ⟨_, rfl, rfl, rfl, rfl, rfl, by decide⟩
  obtain ⟨state, ran, here, joining, alive, queued, waiting⟩ := ran
  have begun : (system .reference (Server.sampleServer 4)).Reachable (.initial fun _ => [] : State 1) := .start ⟨_, rfl⟩
  have reached := begun.run ran
  obtain ⟨filled, joins⟩ := (workers_not_stranded reached).2 (joining ▸ rfl)
  refine ⟨state, ran, here, filled 0 here, joins alive fun name held => ⟨fun _ => none, ?_⟩⟩
  obtain member | ⟨thread, holds⟩ := held
  · rw [queued, List.mem_singleton] at member
    exact member ▸ answerable_dummy _
  · simp [waiting thread] at holds

end Ndnperf.Cxx.Threads

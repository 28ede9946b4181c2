import Mathlib.Algebra.Order.Group.Multiset
import Ndnperf.Cxx.Shutdown

namespace Ndnperf.Cxx.Threads

open Ndn Library.Threads Library.Transition

variable {ndn : NdnCxx} {server : Server} {workers : Nat} {state before after : State workers} {label : Label workers}
  {thread : Fin workers}

/-! ## Where the names are -/

/-- The names of the Interests that the labels bring. -/
def received (labels : List (Label workers)) : Multiset Name :=
  labels.filterMap fun label =>
    match label with
    | .onInterest name => some name
    | .face | .stop | .worker _ _ _ _ | .display => none

/-- The name that a worker has taken and not answered. -/
def WorkerPc.inHand : WorkerPc → Multiset Name
  | .queued name | .answer name => {name}
  | .test | .dequeue | .count | .time | .exited => 0

def State.inHands (state : State workers) : Multiset Name := ∑ thread, (state.pcs thread).inHand

/-- The names of the Data that the server has put. -/
def State.answered (state : State workers) : Multiset Name := state.sent.map Data.name

def State.names (state : State workers) : Multiset Name := state.queue + state.inHands + state.answered

/-- The dummies that `stop` has enqueued. -/
def dummies (ndn : NdnCxx) (server : Server) (state : State workers) : Multiset Name :=
  .replicate (workers - state.stopping.left workers) (dummy ndn server)

theorem inHands_update (state : State workers) (thread : Fin workers) (pc : WorkerPc) :
    (∑ other, (Function.update state.pcs thread pc other).inHand) + (state.pcs thread).inHand =
      state.inHands + pc.inHand :=
  sum_weigh_update WorkerPc.inHand state.pcs thread pc

/-- A worker goes elsewhere, with what it takes from the queue or puts on the face. -/
theorem names_of_move (thread : Fin workers) {pc : WorkerPc} (pcs : after.pcs = Function.update before.pcs thread pc)
    (moved : (after.queue : Multiset Name) + pc.inHand + after.answered =
      before.queue + (before.pcs thread).inHand + before.answered) : after.names = before.names := by
  have hands := inHands_update before thread pc
  rw [← pcs] at hands
  refine add_right_cancel (b := (before.pcs thread).inHand + pc.inHand) ?_
  calc after.names + ((before.pcs thread).inHand + pc.inHand)
      = (after.inHands + (before.pcs thread).inHand) + (after.queue + pc.inHand + after.answered) := by
        rw [State.names]
        ac_rfl
    _ = (before.inHands + pc.inHand) + (before.queue + (before.pcs thread).inHand + before.answered) := by
        rw [State.inHands, hands, moved]
    _ = before.names + ((before.pcs thread).inHand + pc.inHand) := by
        rw [State.names]
        ac_rfl

/-- A worker loses no name and makes none up. -/
theorem names_workerStep {pick duration : Nat} {fileSystem : FileSystem}
    (closed : (before.rows thread).file.isOpen = false)
    (moved : workerStep ndn server before thread pick fileSystem duration = some after) :
    after.names = before.names := by
  cases here : before.pcs thread with
  | test =>
      simp only [workerStep, here, Option.some.injEq] at moved
      subst moved
      refine names_of_move thread rfl ?_
      rw [here]
      split <;> rfl
  | dequeue =>
      simp only [workerStep, here] at moved
      split at moved
      · rename_i name found
        rw [Option.some.injEq] at moved
        subst moved
        refine names_of_move thread rfl ?_
        obtain ⟨inside, found⟩ := List.getElem?_eq_some_iff.mp found
        have taken : (before.queue.eraseIdx pick : Multiset Name) + {name} = before.queue := by
          rw [add_comm, Multiset.singleton_add, Multiset.cons_coe, ← found]
          exact Multiset.coe_eq_coe.mpr (List.getElem_cons_eraseIdx_perm inside)
        have nothing : (before.pcs thread).inHand = 0 := by rw [here]; rfl
        rw [nothing, add_zero]
        exact congrArg (· + before.answered) taken
      · cases moved
  | queued name =>
      simp only [workerStep, here, Option.some.injEq] at moved
      subst moved
      refine names_of_move thread rfl ?_
      rw [here]
      rfl
  | answer name =>
      simp only [workerStep, here] at moved
      split at moved
      · rename_i data row answered
        rw [Option.some.injEq] at moved
        subst moved
        refine names_of_move thread rfl ?_
        have named := (Server.answer_ok closed answered).1
        have more : ((before.sent ++ [data]).map Data.name : Multiset Name) = before.answered + {name} := by
          rw [List.map_append, ← Multiset.coe_add, ← named]
          rfl
        have held : (before.pcs thread).inHand = {name} := by rw [here]; rfl
        rw [held]
        change (before.queue : Multiset Name) + 0 + ((before.sent ++ [data]).map Data.name : Multiset Name) = _
        rw [more]
        ac_rfl
      · rw [← Option.some.inj moved]
        rfl
  | count =>
      simp only [workerStep, here, Option.some.injEq] at moved
      subst moved
      refine names_of_move thread rfl ?_
      rw [here]
      rfl
  | time =>
      simp only [workerStep, here, Option.some.injEq] at moved
      subst moved
      refine names_of_move thread rfl ?_
      rw [here]
      rfl
  | exited =>
      simp only [workerStep, here] at moved
      cases moved

/-- What `stop` adds to the names are its dummies. -/
theorem names_stopStep (remaining : before.stopping.left workers ≤ workers)
    (moved : stopStep ndn server before = some after) :
    after.names + dummies ndn server before = before.names + dummies ndn server after ∧
      after.stopping.left workers ≤ workers := by
  unfold stopStep at moved
  split at moved
  · rename_i running
    rw [← Option.some.inj moved, dummies, running]
    exact ⟨rfl, Nat.le_refl _⟩
  · rename_i halting
    rw [← Option.some.inj moved, dummies, halting]
    exact ⟨rfl, Nat.le_refl _⟩
  · rename_i left enqueueing
    rw [enqueueing] at remaining
    simp only [StopPc.left] at remaining
    have one : workers - left = workers - (left + 1) + 1 := by omega
    rw [← Option.some.inj moved]
    refine ⟨?_, Nat.le_of_succ_le remaining⟩
    simp only [dummies, enqueueing, StopPc.left, State.names, State.inHands, State.answered, one,
      Multiset.replicate_succ, ← Multiset.coe_add, ← Multiset.singleton_add, Multiset.coe_singleton]
    ac_rfl
  · rename_i enqueued
    rw [← Option.some.inj moved, dummies, enqueued]
    exact ⟨rfl, Nat.zero_le _⟩
  · rename_i joining
    split at moved
    · rw [← Option.some.inj moved, dummies, joining]
      exact ⟨rfl, Nat.zero_le _⟩
    · cases moved
  · cases moved

theorem displayStep_frame (moved : displayStep before = some after) :
    after.names = before.names ∧ after.stopping = before.stopping ∧ after.pcs = before.pcs := by
  unfold displayStep at moved
  split at moved
  · split at moved <;> exact Option.some.inj moved ▸ ⟨rfl, rfl, rfl⟩
  · exact Option.some.inj moved ▸ ⟨rfl, rfl, rfl⟩
  · exact Option.some.inj moved ▸ ⟨rfl, rfl, rfl⟩
  · cases moved

theorem workerStep_stopping {pick duration : Nat} {fileSystem : FileSystem}
    (moved : workerStep ndn server before thread pick fileSystem duration = some after) :
    after.stopping = before.stopping := by
  have works := works_of_step moved
  generalize increment ndn server before (.worker thread pick fileSystem duration) = added at works
  cases works <;> rfl

/-- The threads that were joined have ended for good. -/
theorem joined_inductive : (system ndn server : System (State workers) (Label workers)).Inductive
    fun state => state.stopping = .joined → ∀ thread, state.pcs thread = .exited := by
  constructor
  · intro state initial joined
    obtain ⟨buffers, rfl⟩ := initial
    cases joined
  · intro before label after ended moved joined thread
    simp only [system, Threads.step] at moved
    split at moved
    · cases moved
    · cases label with
      | onInterest name =>
          dsimp only at moved
          obtain ⟨_, moved⟩ := Option.ite_none_right_eq_some.mp moved
          rw [← Option.some.inj moved] at joined ⊢
          exact ended joined thread
      | face =>
          dsimp only at moved
          obtain ⟨_, moved⟩ := Option.ite_none_right_eq_some.mp moved
          rw [← Option.some.inj moved] at joined ⊢
          exact ended joined thread
      | stop =>
          dsimp only [stopStep] at moved
          split at moved
          · rw [← Option.some.inj moved] at joined
            cases joined
          · rw [← Option.some.inj moved] at joined
            cases joined
          · rw [← Option.some.inj moved] at joined
            cases joined
          · rw [← Option.some.inj moved] at joined
            cases joined
          · obtain ⟨exited, moved⟩ := Option.ite_none_right_eq_some.mp moved
            rw [← Option.some.inj moved]
            exact exited.1 thread
          · cases moved
      | worker worker pick fileSystem duration =>
          dsimp only at moved
          rw [workerStep_stopping moved] at joined
          have exited := ended joined worker
          simp only [workerStep, exited, reduceCtorEq] at moved
      | display =>
          obtain ⟨_, stopping, pcs⟩ := displayStep_frame moved
          rw [stopping] at joined
          rw [pcs]
          exact ended joined thread

/-- The names are those of the Interests so far and of the dummies. -/
structure Conserved (ndn : NdnCxx) (server : Server) (past : List (Label workers)) (state : State workers) : Prop where
  winding : Winding state
  remaining : state.stopping.left workers ≤ workers
  names : state.names = received past + dummies ndn server state

theorem received_append {past : List (Label workers)} :
    received (past ++ [label]) = received past + received [label] := by
  simp only [received, List.filterMap_append, ← Multiset.coe_add]

theorem Conserved.step {past : List (Label workers)} (conserved : Conserved ndn server past before)
    (moved : (system ndn server).step before label = some after) : Conserved ndn server (past ++ [label]) after := by
  obtain ⟨winding, remaining, names⟩ := conserved
  have next := winding_inductive.step winding moved
  simp only [system, Threads.step] at moved
  split at moved
  · cases moved
  · cases label with
    | onInterest name =>
        dsimp only at moved
        obtain ⟨listening, moved⟩ := Option.ite_none_right_eq_some.mp moved
        rw [← Option.some.inj moved] at next ⊢
        refine ⟨next, remaining, ?_⟩
        rw [received_append]
        calc State.names { before with queue := before.queue ++ [name] } = before.names + {name} := by
              simp only [State.names, State.inHands, State.answered, ← Multiset.coe_add, Multiset.coe_singleton]
              ac_rfl
          _ = received past + received [.onInterest name] + dummies ndn server before := by
              rw [names]
              exact add_right_comm (received past) (dummies ndn server before) {name}
    | face =>
        dsimp only at moved
        obtain ⟨halted, moved⟩ := Option.ite_none_right_eq_some.mp moved
        rw [← Option.some.inj moved] at next ⊢
        exact ⟨next, remaining, by rw [received_append]; exact names.trans (congrArg (· + _) (add_zero _).symm)⟩
    | stop =>
        obtain ⟨balance, remaining⟩ := names_stopStep remaining moved
        refine ⟨next, remaining, add_right_cancel (b := dummies ndn server before) (balance.trans ?_)⟩
        have nothing : received [(.stop : Label workers)] = 0 := rfl
        rw [names, received_append, nothing, add_zero]
        exact add_right_comm (received past) (dummies ndn server before) (dummies ndn server after)
    | worker thread pick fileSystem duration =>
        have same := names_workerStep (winding.closed thread) moved
        have stopping := workerStep_stopping moved
        refine ⟨next, stopping ▸ remaining, ?_⟩
        rw [same, names, received_append, dummies, dummies, stopping]
        exact congrArg (· + _) (add_zero _).symm
    | display =>
        obtain ⟨same, stopping, _⟩ := displayStep_frame moved
        refine ⟨next, stopping ▸ remaining, ?_⟩
        rw [same, names, received_append, dummies, dummies, stopping]
        exact congrArg (· + _) (add_zero _).symm

/-- In every run and every interleaving, the names of the Interests received and
of the dummies of `stop` are those of the Data put, of the elements queued and
of those that a worker is at: none is lost and none is answered twice. -/
theorem names_conserved {buffers : Fin workers → Bytes} {labels : List (Label workers)}
    (ran : (system ndn server).run (.initial buffers) labels = some state) :
    (state.answered + state.queue + ∑ thread, (state.pcs thread).inHand =
      received labels + .replicate (workers - state.stopping.left workers) (dummy ndn server)) ∧
    (state.stopping = .joined → state.answered + state.queue =
      received labels + .replicate workers (dummy ndn server)) := by
  have begun : Conserved ndn server [] (.initial buffers : State workers) := by
    refine ⟨winding_initial buffers, Nat.le_refl _, ?_⟩
    simp [State.names, State.inHands, State.answered, State.initial, WorkerPc.inHand, received, dummies, StopPc.left]
  have conserved := @System.run_records _ _ _ (Conserved ndn server)
      (fun held moved => held.step moved) _ _ _ _ begun ran
  have balance : state.names = received labels + dummies ndn server state := conserved.names
  have reached : (system ndn server).Reachable state := System.Reachable.run (.start ⟨buffers, rfl⟩) ran
  have parts : state.answered + state.queue + ∑ thread, (state.pcs thread).inHand = state.names := by
    rw [State.names, State.inHands]
    ac_rfl
  refine ⟨parts.trans balance, fun joined => ?_⟩
  have nothing : ∑ thread, (state.pcs thread).inHand = 0 := by
    refine Finset.sum_eq_zero fun thread _ => ?_
    rw [joined_inductive.reachable reached joined thread]
    rfl
  rw [nothing, add_zero] at parts
  rw [parts, balance, dummies, joined]
  rfl

/-- One Interest, which the only worker has answered before `stop` enqueues its dummy. -/
def answeredThenStopped : List (Label 1) :=
  .onInterest (Server.sampleName [.generic (ascii "benchmark")]) :: List.replicate 4
    (.worker (Fin.last 0) 0 (fun _ => none) 0) ++ [.stop, .stop, .stop]

theorem names_conserved_sample :
    ∃ state : State 1, (system .reference (Server.sampleServer 4)).run (.initial fun _ => []) answeredThenStopped =
      some state ∧
      state.answered + state.queue + ∑ thread, (state.pcs thread).inHand =
        {Server.sampleName [.generic (ascii "benchmark")]} + {dummy .reference (Server.sampleServer 4)} := by
  have ran : ∃ state : State 1, (system .reference (Server.sampleServer 4)).run
      (.initial fun _ => []) answeredThenStopped = some state ∧ state.stopping = .enqueue 0 := ⟨_, rfl, rfl⟩
  obtain ⟨state, ran, enqueued⟩ := ran
  have conserved := (names_conserved ran).1
  rw [enqueued] at conserved
  exact ⟨state, ran, conserved⟩

end Ndnperf.Cxx.Threads

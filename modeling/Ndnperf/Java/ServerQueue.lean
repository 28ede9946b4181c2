import Ndnperf.Library.Threads
import Ndnperf.Java.Server

namespace Ndnperf.Java.Server

open Ndn Library.Transition Library.Threads

variable {jndn : Jndn} {server : Server} {Thread : Type} [DecidableEq Thread] {state before after : State Thread}
  {thread : Thread} {name : Name} {fileSystem : FileSystem} {label : Label Thread}

/-! ## What one step of a thread can do -/

/-- The steps of a `DataProcess` thread, as far as benchmark names go. -/
inductive Works (jndn : Jndn) (server : Server) (state : State Thread) (thread : Thread) : State Thread → Prop where
  | takes {name : Name} {rest : List Name} (here : state.workers thread = .take) (found : state.queue = name :: rest) :
      Works jndn server state thread
        ({ state with queue := rest, taken := state.taken ++ [name] }.workerAt thread (.get name))
  | finds {name : Name} (here : state.workers thread = .get name)
      (known : (state.pendingInterest (jndn.toUri name)).isSome) :
      Works jndn server state thread (state.workerAt thread (.remove name))
  | misses {name : Name} (here : state.workers thread = .get name)
      (missing : state.pendingInterest (jndn.toUri name) = none) :
      Works jndn server state thread (state.workerAt thread .take)
  | removes {name : Name} (here : state.workers thread = .remove name) :
      Works jndn server state thread ({ state with
        pendingInterest := Function.update state.pendingInterest (jndn.toUri name) none }.workerAt thread
          (.handle name))
  | answers {name : Name} (here : state.workers thread = .handle name) (benchmark : dispatch jndn name = .benchmark) :
      Works jndn server state thread ((state.send (some (server.doBenchmark jndn name))).workerAt thread .take)
  | other {name : Name} {next : State Thread} (here : state.workers thread = .handle name)
      (different : dispatch jndn name ≠ .benchmark) : Works jndn server state thread next

theorem works_of_workerStep (moved : workerStep jndn server state thread fileSystem = some after) :
    Works jndn server state thread after := by
  unfold workerStep at moved
  split at moved <;> rename_i here
  · split at moved
    · rename_i found
      exact Option.some.inj moved ▸ .takes here found
    · cases moved
  · split at moved <;> rename_i found
    · exact Option.some.inj moved ▸ .finds here (by rw [found]; rfl)
    · exact Option.some.inj moved ▸ .misses here found
  · exact Option.some.inj moved ▸ .removes here
  · split at moved <;> rename_i handler
    · exact Option.some.inj moved ▸ .answers here handler
    all_goals exact .other here (by rw [handler]; decide)

/-! ## The names whose time is still to be looked up -/

def WorkerPc.looking : WorkerPc → Option Name
  | .get name => some name
  | _ => none

def WorkerPc.busy : WorkerPc → Option Name
  | .take => none
  | .get name | .remove name | .handle name => some name

namespace WorkerPc

@[simp] theorem busy_take : take.busy = none := rfl

@[simp] theorem busy_get (name : Name) : (get name).busy = some name := rfl

@[simp] theorem busy_remove (name : Name) : (remove name).busy = some name := rfl

@[simp] theorem busy_handle (name : Name) : (handle name).busy = some name := rfl

end WorkerPc

def State.Waiting (state : State Thread) (name : Name) : Prop :=
  state.offering = some name ∨ name ∈ state.queue ∨ ∃ thread, state.workers thread = .get name

def State.Unclaimed (jndn : Jndn) (state : State Thread) (uri : Text) : Prop :=
  (∀ name ∈ state.offering, jndn.toUri name ≠ uri) ∧ (∀ name ∈ state.queue, jndn.toUri name ≠ uri) ∧
    ∀ thread, ∀ name ∈ (state.workers thread).looking, jndn.toUri name ≠ uri

instance [Fintype Thread] (uri : Text) : Decidable (state.Unclaimed jndn uri) :=
  inferInstanceAs (Decidable (_ ∧ _ ∧ _))

/-- A thread removes the time of a name only while no other copy of that name is waiting. -/
def ExclusiveAt (jndn : Jndn) (state : State Thread) : WorkerPc → Prop
  | .remove name => state.Unclaimed jndn (jndn.toUri name)
  | _ => True

instance [Fintype Thread] : (pc : WorkerPc) → Decidable (ExclusiveAt jndn state pc)
  | .remove _ => inferInstanceAs (Decidable (State.Unclaimed ..))
  | .take | .get _ | .handle _ => inferInstanceAs (Decidable True)

def Exclusive (jndn : Jndn) (state : State Thread) : Label Thread → Prop
  | .onInterest name _ => dispatch jndn name = .benchmark
  | .offer => True
  | .worker thread _ => ExclusiveAt jndn state (state.workers thread)

instance [Fintype Thread] : (label : Label Thread) → Decidable (Exclusive jndn state label)
  | .onInterest _ _ => inferInstanceAs (Decidable (_ = _))
  | .offer => inferInstanceAs (Decidable True)
  | .worker _ _ => inferInstanceAs (Decidable (ExclusiveAt ..))

def State.Held (state : State Thread) (name : Name) : Prop :=
  state.offering = some name ∨ name ∈ state.queue ∨ ∃ thread, (state.workers thread).busy = some name

theorem workerAt_busy {pc : WorkerPc} {other : Thread}
    (here : ((state.workerAt thread pc).workers other).busy = some name) :
    pc.busy = some name ∨ (state.workers other).busy = some name := by
  by_cases same : other = thread
  · subst same
    simp only [State.workerAt, Function.update_self] at here
    exact .inl here
  · simp only [State.workerAt, Function.update_of_ne same] at here
    exact .inr here

theorem workerAt_get {pc : WorkerPc} {other : Thread} (here : (state.workerAt thread pc).workers other = .get name) :
    pc = .get name ∨ state.workers other = .get name := by
  by_cases same : other = thread
  · subst same
    simp only [State.workerAt, Function.update_self] at here
    exact .inl here
  · simp only [State.workerAt, Function.update_of_ne same] at here
    exact .inr here

/-- Every copy that waits has its time in the map. -/
def Known (jndn : Jndn) (state : State Thread) : Prop :=
  ∀ name, state.Waiting name → (state.pendingInterest (jndn.toUri name)).isSome

theorem Known.works (known : Known jndn before) (worked : Works jndn server before thread after)
    (benchmark : ∀ name, before.Held name → dispatch jndn name = .benchmark)
    (exclusive : ExclusiveAt jndn before (before.workers thread)) : Known jndn after := by
  have narrower : ∀ {pc : WorkerPc}, (∀ name, pc ≠ .get name) → ∀ name,
      (before.workerAt thread pc).Waiting name → before.Waiting name := by
    intro pc passed name held
    rcases held with offering | queued | ⟨other, here⟩
    · exact .inl offering
    · exact .inr (.inl queued)
    · rcases workerAt_get here with reached | stays
      · exact (passed name reached).elim
      · exact .inr (.inr ⟨other, stays⟩)
  cases worked with
  | takes here found =>
      rename_i taken rest
      intro name held
      rcases held with offering | queued | ⟨other, here⟩
      · exact known name (.inl offering)
      · exact known name (.inr (.inl (found ▸ List.mem_cons_of_mem taken queued)))
      · rcases workerAt_get here with reached | stays
        · obtain rfl := WorkerPc.get.inj reached
          exact known taken (.inr (.inl (found ▸ List.mem_cons_self)))
        · exact known name (.inr (.inr ⟨other, stays⟩))
  | finds | misses | answers => exact fun name waiting => known name (narrower (by simp) name waiting)
  | removes here =>
      rename_i removed
      intro name waiting
      have earlier : before.Waiting name := @narrower (.handle removed) (by simp) name waiting
      rw [here] at exclusive
      obtain ⟨offering, queue, threads⟩ := exclusive
      have different : jndn.toUri name ≠ jndn.toUri removed := by
        rcases earlier with offered | queued | ⟨other, looks⟩
        · exact offering name offered
        · exact queue name queued
        · exact threads other name (by rw [looks]; rfl)
      simpa [State.workerAt, Function.update_of_ne different] using known name earlier
  | other here different => exact (different (benchmark _ (.inr (.inr ⟨thread, by rw [here]; rfl⟩)))).elim

/-- What holds between two steps of a run with benchmark Interests and exclusive removals. -/
structure Accounted [Fintype Thread] (jndn : Jndn) (state : State Thread) : Prop where
  known : Known jndn state
  benchmark : ∀ name, state.Held name → dispatch jndn name = .benchmark
  counted : ∀ name, state.taken.count name =
    (state.sent.map Data.name).count name + threadsAt (·.busy = some name) state.workers

theorem benchmark_works (benchmark : ∀ name, before.Held name → dispatch jndn name = .benchmark)
    (worked : Works jndn server before thread after) : ∀ name, after.Held name → dispatch jndn name = .benchmark := by
  have narrower : ∀ {pc : WorkerPc}, (∀ name, pc.busy = some name → before.Held name) → ∀ name,
      (before.workerAt thread pc).Held name → before.Held name := by
    intro pc earlier name held
    rcases held with offering | queued | ⟨other, here⟩
    · exact .inl offering
    · exact .inr (.inl queued)
    · rcases workerAt_busy here with reached | stays
      · exact earlier name reached
      · exact .inr (.inr ⟨other, stays⟩)
  cases worked with
  | takes here found =>
      rename_i taken rest
      intro name held
      rcases held with offering | queued | ⟨other, here⟩
      · exact benchmark name (.inl offering)
      · exact benchmark name (.inr (.inl (found ▸ List.mem_cons_of_mem taken queued)))
      · rcases workerAt_busy here with reached | stays
        · obtain rfl := Option.some.inj reached
          exact benchmark taken (.inr (.inl (found ▸ List.mem_cons_self)))
        · exact benchmark name (.inr (.inr ⟨other, stays⟩))
  | finds here | removes here =>
      exact fun name held => benchmark name (narrower
        (fun name busy => .inr (.inr ⟨thread, by rw [here]; exact busy⟩)) name held)
  | misses here | answers here => exact fun name held => benchmark name (narrower (by simp) name held)
  | other here different => exact (different (benchmark _ (.inr (.inr ⟨thread, by rw [here]; rfl⟩)))).elim

theorem Accounted.works [Fintype Thread] (accounted : Accounted jndn before)
    (worked : Works jndn server before thread after) (exclusive : ExclusiveAt jndn before (before.workers thread)) :
    Accounted jndn after := by
  refine ⟨accounted.known.works worked accounted.benchmark exclusive, benchmark_works accounted.benchmark worked, ?_⟩
  intro name
  have counted := accounted.counted name
  have moved := fun pc => threadsAt_update (·.busy = some name) before.workers thread pc
  cases worked with
  | takes here found =>
      rename_i taken rest
      have moved := moved (.get taken)
      simp only [here, WorkerPc.busy_take, WorkerPc.busy_get, Option.some.injEq, reduceCtorEq, if_false] at moved
      simp only [State.workerAt, List.count_append, List.count_singleton, beq_iff_eq]
      omega
  | finds here =>
      rename_i found _
      have moved := moved (.remove found)
      simp only [here, WorkerPc.busy_get, WorkerPc.busy_remove, Option.some.injEq] at moved
      simp only [State.workerAt]
      omega
  | misses here missing =>
      have known := accounted.known _ (.inr (.inr ⟨thread, here⟩))
      rw [missing] at known
      cases known
  | removes here =>
      rename_i removed
      have moved := moved (.handle removed)
      simp only [here, WorkerPc.busy_remove, WorkerPc.busy_handle, Option.some.injEq] at moved
      simp only [State.workerAt]
      omega
  | answers here =>
      rename_i answered _
      have moved := moved .take
      have named : (server.doBenchmark jndn answered).name = answered := server.benchmarkSigner.name _
      simp only [here, WorkerPc.busy_take, WorkerPc.busy_handle, Option.some.injEq, reduceCtorEq, if_false] at moved
      simp only [State.workerAt, State.send, Option.toList, List.map_append, List.map_cons, List.map_nil, named,
        List.count_append, List.count_singleton, beq_iff_eq]
      omega
  | other here different => exact (different (accounted.benchmark _ (.inr (.inr ⟨thread, by rw [here]; rfl⟩)))).elim

omit [DecidableEq Thread] in
theorem accounted_initial [Fintype Thread] : Accounted jndn (State.initial : State Thread) := by
  refine ⟨?_, ?_, fun name => ?_⟩
  · rintro name (offering | queued | ⟨_, here⟩) <;> contradiction
  · rintro name (offering | queued | ⟨_, here⟩) <;> contradiction
  · simp [State.initial, threadsAt]

omit [DecidableEq Thread] in
theorem Accounted.onInterest [Fintype Thread] (accounted : Accounted jndn before)
    (benchmark : dispatch jndn name = .benchmark) (time : Int) :
    Accounted jndn { before with
      pendingInterest := Function.update before.pendingInterest (jndn.toUri name) (some time)
      offering := some name } := by
  refine ⟨?_, ?_, accounted.counted⟩
  · intro other held
    rcases held with offered | waiting
    · obtain rfl := Option.some.inj offered
      simp
    · by_cases same : jndn.toUri other = jndn.toUri name
      · simp [same]
      · simpa [Function.update_of_ne same] using accounted.known other (.inr waiting)
  · intro other held
    rcases held with offered | held
    · obtain rfl := Option.some.inj offered
      exact benchmark
    · exact accounted.benchmark other (.inr held)

omit [DecidableEq Thread] in
theorem Accounted.offer [Fintype Thread] (accounted : Accounted jndn before) (offering : before.offering = some name) :
    Accounted jndn { before with offering := none, queue := before.queue ++ [name] } := by
  refine ⟨?_, ?_, accounted.counted⟩
  · intro other held
    rcases held with offered | queued | thread
    · cases offered
    · rcases List.mem_append.mp queued with queued | last
      · exact accounted.known other (.inr (.inl queued))
      · obtain rfl := List.mem_singleton.mp last
        exact accounted.known other (.inl offering)
    · exact accounted.known other (.inr (.inr thread))
  · intro other held
    rcases held with offered | queued | thread
    · cases offered
    · rcases List.mem_append.mp queued with queued | last
      · exact accounted.benchmark other (.inr (.inl queued))
      · obtain rfl := List.mem_singleton.mp last
        exact accounted.benchmark other (.inl offering)
    · exact accounted.benchmark other (.inr (.inr thread))

/-! ## Every run -/

theorem accounted_inductive [Fintype Thread] :
    ((system jndn server).guarded (Exclusive jndn)).Inductive fun state : State Thread => Accounted jndn state := by
  constructor
  · intro state same
    subst same
    exact accounted_initial
  · intro before label after accounted moved
    obtain ⟨exclusive, moved⟩ := System.guarded_step.mp moved
    cases label with
    | onInterest name time =>
        simp only [system, step] at moved
        split at moved
        · exact Option.some.inj moved ▸ accounted.onInterest exclusive time
        · cases moved
    | offer =>
        simp only [system, step] at moved
        split at moved
        · rename_i name offering
          exact Option.some.inj moved ▸ accounted.offer offering
        · cases moved
    | worker thread fileSystem => exact accounted.works (works_of_workerStep moved) exclusive

/-- While removals are exclusive no lookup misses, and every name taken has
been answered once or is with the one thread that will answer it. -/
theorem queued_answered [Fintype Thread] {state : State Thread}
    (reached : ((system jndn server).guarded (Exclusive jndn)).Reachable state) :
    (∀ thread name, state.workers thread = .get name → (state.pendingInterest (jndn.toUri name)).isSome) ∧
      ∀ name, state.taken.count name =
        (state.sent.map Data.name).count name + threadsAt (·.busy = some name) state.workers := by
  have accounted := accounted_inductive.reachable reached
  exact ⟨fun thread name here => accounted.known name (.inr (.inr ⟨thread, here⟩)), accounted.counted⟩

def sampleServer : Server := new .reference ['d', 'a', 't', 'a'] 2 0 .unsigned .unsigned

def noFiles : FileSystem := { lookup := fun _ => none, content := fun _ => [] }

def sampleInterest : Name := [.generic (ascii "debit"), .generic (ascii "benchmark"), .generic (ascii "1")]

def sampleOnce : List (Label Unit) :=
  [.onInterest sampleInterest 0, .offer, .worker () noFiles, .worker () noFiles, .worker () noFiles, .worker () noFiles]

theorem queued_answered_sample :
    ∃ state : State Unit, ((system .reference sampleServer).guarded (Exclusive .reference)).run .initial sampleOnce =
        some state ∧ state.taken = [sampleInterest] ∧
      state.taken.count sampleInterest = (state.sent.map Data.name).count sampleInterest +
        threadsAt (·.busy = some sampleInterest) state.workers := by
  have ends : (((system .reference sampleServer).guarded (Exclusive .reference)).run .initial sampleOnce).map
      (fun state : State Unit => state.taken) = some [sampleInterest] := by decide +kernel
  obtain ⟨state, ran, taken⟩ := Option.map_eq_some_iff.mp ends
  exact ⟨state, ran, taken, (queued_answered (System.Reachable.run (.start rfl) ran)).2 sampleInterest⟩

/-- The same Interest again before the first copy is answered: the first thread
to remove its time leaves none for the second copy. -/
def sampleTwice : List (Label Unit) :=
  [.onInterest sampleInterest 0, .offer, .onInterest sampleInterest 1, .offer, .worker () noFiles, .worker () noFiles,
    .worker () noFiles, .worker () noFiles, .worker () noFiles]

/-- The second copy is looked up in vain, and in the next step its thread goes
back to the queue with two names taken and one answered. -/
theorem retransmission_unanswered :
    (∃ state : State Unit, (system .reference sampleServer).Reachable state ∧
      state.workers () = .get sampleInterest ∧
        state.pendingInterest (Jndn.reference.toUri sampleInterest) = none) ∧
    ∃ state : State Unit, (system .reference sampleServer).Reachable state ∧ state.offering = none ∧
      state.queue = [] ∧ state.workers () = .take ∧ state.taken = [sampleInterest, sampleInterest] ∧
        state.sent.map Data.name = [sampleInterest] := by
  constructor
  · have ends : ((system .reference sampleServer).run .initial sampleTwice).map (fun state : State Unit =>
        (state.workers (), state.pendingInterest (Jndn.reference.toUri sampleInterest))) =
          some (.get sampleInterest, none) := by decide +kernel
    obtain ⟨state, ran, same⟩ := Option.map_eq_some_iff.mp ends
    obtain ⟨here, missing⟩ := Prod.mk.inj same
    exact ⟨state, System.Reachable.run (.start rfl) ran, here, missing⟩
  · have ends : ((system .reference sampleServer).run .initial (sampleTwice ++ [.worker () noFiles])).map
        (fun state : State Unit =>
          (state.offering, state.queue, state.workers (), state.taken, state.sent.map Data.name)) =
          some (none, [], .take, [sampleInterest, sampleInterest], [sampleInterest]) := by decide +kernel
    obtain ⟨state, ran, same⟩ := Option.map_eq_some_iff.mp ends
    simp only [Prod.mk.injEq] at same
    exact ⟨state, System.Reachable.run (.start rfl) ran, same⟩

end Ndnperf.Java.Server

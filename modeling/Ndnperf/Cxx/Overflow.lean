import Ndnperf.Cxx.Rounds

namespace Ndnperf.Cxx.Threads

open Ndn Library.Word Library.Threads Library.Transition

variable {ndn : NdnCxx} {server : Server} {workers : Nat} {state before after : State workers} {label : Label workers}
  {thread : Fin workers} {counter : Counter} {left : List (Fin workers × Counter)}

/-! ## Overflow of the statistics -/

/-- A number that an `int` can hold. -/
def InInt (value : Int) : Prop := -2 ^ 31 ≤ value ∧ value < 2 ^ 31

/-- The step of `display` stores its sums and negations as they are. -/
def ExactDisplay (before : State workers) : DisplayPc workers → Prop
  | .test => ∀ counter, InInt (-before.new counter)
  | .read ((thread, counter) :: _) => InInt (before.new counter + (before.rows thread).log.get counter)
  | .read [] => ∀ counter, InInt (before.last counter + before.new counter)
  | .exited => True

/-- The step stores every sum and negation of counters as it is. -/
def Exact (ndn : NdnCxx) (server : Server) (before : State workers) (label : Label workers) : Prop :=
  match label with
  | .display => ExactDisplay before before.display
  | label => ∀ thread counter amount, increment ndn server before label = some (thread, counter, amount) →
      InInt ((before.rows thread).log.get counter + amount)

/-- The places read so far and the next one make up less than 2^31. -/
def SmallDisplay (before : State workers) : DisplayPc workers → Prop
  | .read ((thread, counter) :: left) =>
      sumExcept ((thread, counter) :: left) before.seen counter + (before.made thread counter).sum < 2 ^ 31
  | .read [] | .test | .exited => True

/-- All that a worker has ever added to a place is less than 2^31, and so is
what all workers have added to it, as `display` reads it. -/
def Small (ndn : NdnCxx) (server : Server) (before : State workers) (label : Label workers) : Prop :=
  match label with
  | .display => SmallDisplay before before.display
  | label => ∀ thread counter amount, increment ndn server before label = some (thread, counter, amount) →
      (before.made thread counter).sum + amount < 2 ^ 31

/-- Sums that 32 bits have not changed. -/
structure Fits (state : State workers) : Prop where
  counted : Counted state
  rows : ∀ thread counter, (state.made thread counter).sum < 2 ^ 31
  base : ∀ counter, total state.base counter < 2 ^ 31
  read : ∀ left, state.display = .read left → ∀ counter, sumExcept left state.seen counter < 2 ^ 31

theorem fits_initial (buffers : Fin workers → Bytes) : Fits (.initial buffers) where
  counted := counted_initial buffers
  rows _ _ := by simp [State.initial]
  base _ := by simp [State.initial, total]
  read _ same := by simp [State.initial] at same

theorem inInt_natCast {value : Nat} : InInt value ↔ value < 2 ^ 31 := by
  unfold InInt
  omega

/-- A number that 32 bits hold is what they hold. -/
theorem int32_natCast {value : Nat} (small : value < 2 ^ 31) : int32 value = value :=
  int32_of_bounds (by omega) (by omega)

theorem Fits.row (fits : Fits state) (thread : Fin workers) (counter : Counter) :
    (state.rows thread).log.get counter = ((state.made thread counter).sum : Nat) := by
  rw [fits.counted.rows, int32_natCast (fits.rows thread counter)]

theorem Fits.exactDisplay_iff (fits : Fits before) :
    ExactDisplay before before.display ↔ SmallDisplay before before.display := by
  have displays := fits.counted.displays
  rcases here : before.display with _ | ⟨_ | ⟨⟨thread, counter⟩, left⟩⟩ | _ <;> rw [here] at displays
  · refine iff_of_true (fun counter => ?_) trivial
    have base := fits.base counter
    rw [displays.1] at base
    rw [displays.2, int32_natCast base]
    constructor <;> omega
  · refine iff_of_true (fun counter => ?_) trivial
    obtain ⟨last, new⟩ := displays.2.2 counter
    have base := fits.base counter
    have read := fits.read [] here counter
    rw [last, new, int32_natCast read, int32_of_bounds (by omega) (by omega)]
    constructor <;> omega
  · have read := fits.read _ here counter
    rw [ExactDisplay, SmallDisplay, fits.row, (displays.2.2 counter).2, int32_natCast read, ← Nat.cast_add,
      inInt_natCast]
  · exact Iff.rfl

/-- As long as nothing has overflowed, the next step overflows exactly if a sum reaches 2^31. -/
theorem Fits.exact_iff_small (fits : Fits before) : Exact ndn server before label ↔ Small ndn server before label := by
  have grows : ∀ label : Label workers,
      (∀ thread counter amount, increment ndn server before label = some (thread, counter, amount) →
        InInt ((before.rows thread).log.get counter + amount)) ↔
      ∀ thread counter amount, increment ndn server before label = some (thread, counter, amount) →
        (before.made thread counter).sum + amount < 2 ^ 31 := by
    intro label
    refine forall₄_congr fun thread counter amount _ => ?_
    rw [fits.row, ← Nat.cast_add, inInt_natCast]
  cases label with
  | display => exact fits.exactDisplay_iff
  | onInterest | face | stop | worker => exact grows _

theorem Fits.works {added : Option (Fin workers × Counter × Nat)} (fits : Fits before)
    (small : ∀ thread counter amount, added = some (thread, counter, amount) →
      (before.made thread counter).sum + amount < 2 ^ 31)
    (worked : Works before thread added after) : Fits after := by
  have counted := fits.counted.works worked
  cases worked with
  | tested | took | threw => exact { fits with counted }
  | @grew counter amount row next sent follows adds closes =>
      refine { fits with counted, rows := fun other place => ?_ }
      simp only [State.workerAt, State.grow, put_apply]
      split
      · rw [List.sum_append, List.sum_singleton]
        exact small thread counter amount rfl
      · exact fits.rows other place

theorem Fits.displayed (fits : Fits before) (small : SmallDisplay before before.display)
    (moved : displayStep before = some after) : Fits after := by
  have counted := fits.counted.displayed moved
  have displays := fits.counted.displays
  rcases here : before.display with _ | ⟨_ | ⟨⟨thread, counter⟩, left⟩⟩ | _ <;>
    simp only [displayStep, here, reduceCtorEq] at moved <;> rw [here] at displays small
  · split at moved
    · obtain rfl := Option.some.inj moved
      exact { fits with counted, read := by simp }
    · obtain rfl := Option.some.inj moved
      refine { fits with counted, read := fun left same counter => ?_ }
      obtain rfl := DisplayPc.read.inj same
      rw [sumExcept_places]
      decide
  · obtain rfl := Option.some.inj moved
    refine { fits with counted, base := fun counter => ?_, read := by simp }
    have read := fits.read [] here counter
    rwa [sumExcept_nil] at read
  · obtain rfl := Option.some.inj moved
    refine { fits with counted, read := fun rest going place => ?_ }
    obtain rfl := DisplayPc.read.inj going
    simp only [sumExcept_put displays.1]
    by_cases same : place = counter
    · subst same
      rw [if_pos rfl]
      exact small
    · rw [if_neg same, Nat.add_zero]
      exact fits.read _ here place

theorem Fits.step (fits : Fits before) (small : Small ndn server before label)
    (moved : (system ndn server).step before label = some after) : Fits after := by
  have counted := counted_inductive.step fits.counted moved
  simp only [system, Threads.step] at moved
  split at moved
  · cases moved
  · cases label with
    | onInterest | face =>
        simp only [Option.ite_none_right_eq_some, Option.some.injEq] at moved
        obtain ⟨_, rfl⟩ := moved
        exact { fits with counted }
    | stop =>
        obtain ⟨stop, ioStopped, queue, stopping, rfl⟩ := stopStep_frame moved
        exact { fits with counted }
    | worker thread pick fileSystem duration => exact fits.works small (works_of_step moved)
    | display => exact fits.displayed small moved

/-- The statistics of a run never overflow exactly if no counter of a worker
ever reaches 2^31, nor the sum of what `display` reads of them. -/
theorem never_overflows_iff (buffers : Fin workers → Bytes) (labels : List (Label workers)) :
    (system ndn server).Along (Exact ndn server) (.initial buffers) labels ↔
      (system ndn server).Along (Small ndn server) (.initial buffers) labels :=
  System.along_iff_along (fun fits _ => fits.exact_iff_small) (fun fits small moved => fits.step small moved)
    (fits_initial buffers) labels

/-! A server with the default payload, and one worker that answers benchmark
Interests as soon as they come. -/

def benchmarkName : Name := Server.sampleName [.generic (ascii "benchmark")]

def sole : Fin 1 := Fin.last 0

def iteration : List (Label 1) := .onInterest benchmarkName :: List.replicate 6 (.worker sole 0 (fun _ => none) 0)

structure Idle (served : Nat) (state : State 1) : Prop where
  pcs : state.pcs sole = .test
  stop : state.stop = false
  queue : state.queue = []
  alive : state.terminated = none
  face : state.face = true
  payload : (state.made sole .payloadSum).sum = 8192 * served

theorem answer_benchmark (worker : Worker) :
    ∃ data row, (Server.sampleServer 8192).answer .reference (fun _ => none) benchmarkName worker = .ok (data, row) ∧
      (Server.sampleServer 8192).payload .reference benchmarkName data = 8192 :=
  ⟨_, _, rfl, rfl⟩

theorem Idle.iteration {served : Nat} {state : State 1} (idle : Idle served state) :
    ∃ after, (system .reference (Server.sampleServer 8192)).run state iteration = some after ∧
      Idle (served + 1) after := by
  obtain ⟨data, row, answered, payload⟩ := answer_benchmark ((state.rows sole).add .qtime 0)
  simp only [system, Threads.iteration, List.replicate, System.run, step, idle.alive, idle.face, if_true, idle.stop,
    idle.queue, List.nil_append, workerStep, State.workerAt, List.eraseIdx_zero, State.grow, Nat.cast_zero,
    Option.bind_fun_some, Option.bind_some, idle.pcs, Bool.false_eq_true, if_false, Function.update_self,
    List.getElem?_cons_zero, List.tail_cons, Function.update_idem, answered, payload, Option.some.injEq,
    exists_eq_left']
  refine ⟨Function.update_self sole WorkerPc.test state.pcs, rfl, rfl, rfl, rfl, ?_⟩
  simp only [put_apply, Prod.mk.injEq, true_and, reduceCtorEq, if_false, if_true, List.sum_append, List.sum_singleton,
    idle.payload]
  omega

theorem idle_iterations (served : Nat) :
    ∃ state, (system .reference (Server.sampleServer 8192)).run sampleStart (List.replicate served iteration).flatten =
      some state ∧ Idle served state := by
  induction served with
  | zero => exact ⟨sampleStart, rfl, rfl, rfl, rfl, rfl, rfl, rfl⟩
  | succ served ih =>
      obtain ⟨middle, ran, idle⟩ := ih
      obtain ⟨after, iterated, idle⟩ := idle.iteration
      refine ⟨after, ?_, idle⟩
      rw [List.replicate_succ', List.flatten_append, List.flatten_singleton]
      exact System.run_append.mpr ⟨middle, ran, iterated⟩

/-- After 262144 packets of 8192 bytes the payload sum does not fit in an `int`. -/
theorem payload_overflows :
    ¬(system .reference (Server.sampleServer 8192)).Along (Exact .reference (Server.sampleServer 8192)) sampleStart
      (List.replicate 262144 iteration).flatten := by
  intro exact_run
  have small := (never_overflows_iff (fun _ => []) _).mp exact_run
  obtain ⟨state, ran, idle⟩ := idle_iterations 262144
  have fits := small.keeps (fun fits small moved => Fits.step fits small moved) (fits_initial _) ran
  have bound := fits.rows sole .payloadSum
  rw [idle.payload] at bound
  exact absurd bound (by decide)

end Ndnperf.Cxx.Threads

import Ndnperf.Java.PendingInterests

namespace Ndnperf.Java.Client

open Ndn Library.Transition List

/-! The entries of `retry_table` and the timeouts that a name has had. -/

variable {jndn : Jndn} {client : Client} {state before after : State} {event : Event} {past events : List Event}
  {name : Name}

/-- The name that the callback of an event is about. -/
def Event.about : Event → Option Name
  | .data name _ _ => some name
  | .timeout name _ => some name
  | .main _ => none
  | .fileManager => none

/-- The timeouts of a name since its last Data, after one more event. -/
def Event.counted (name : Name) (count : Nat) : Event → Nat
  | .data other _ _ => if other = name then 0 else count
  | .timeout other _ => if other = name then count + 1 else count
  | .main _ => count
  | .fileManager => count

/-- How often a name has timed out since its last Data, or since the start. -/
def streak (name : Name) (events : List Event) : Nat := events.foldl (Event.counted name) 0

theorem streak_append (name : Name) (past : List Event) (event : Event) :
    streak name (past ++ [event]) = event.counted name (streak name past) := by
  simp [streak]

theorem counted_others (other : event.about ≠ some name) (count : Nat) : event.counted name count = count := by
  cases event with
  | data | timeout => exact if_neg fun same => other (congrArg some same)
  | main | fileManager => rfl

/-- Only the timeouts and the Data of the name itself count. -/
theorem streak_filter (name : Name) (events : List Event) :
    streak name (events.filter fun event => event.about = some name) = streak name events := by
  have from_any : ∀ count, (events.filter fun event => event.about = some name).foldl (Event.counted name) count =
      events.foldl (Event.counted name) count := by
    induction events with
    | nil => exact fun _ => rfl
    | cons event rest ih =>
        intro count
        by_cases here : event.about = some name
        · simp only [filter_cons, here, decide_true, if_true, foldl_cons, ih]
        · simp only [filter_cons, here, decide_false, Bool.false_eq_true, if_false, foldl_cons, counted_others here, ih]
  exact from_any 0

/-! ## The entry of a name -/

/-- `retry_table` after a callback whose call of `expressInterest` does not throw. -/
def tableAfter (jndn : Jndn) (state : State) : Event → Text → Option Int
  | .data name _ _ => Function.update state.retryTable (jndn.toUri name) none
  | .timeout name _ => Function.update state.retryTable (jndn.toUri name)
      (some (if 0 < state.retries jndn name then state.retries jndn name - 1 else state.retries jndn name))
  | .main _ => state.retryTable
  | .fileManager => state.retryTable

theorem onData_table (content : Bytes) (throwsAt : Option Failure) :
    (client.onData jndn name content throwsAt state).retryTable =
      Function.update state.retryTable (jndn.toUri name) none := by
  unfold onData
  simp only
  split
  · split
    · split
      · obtain ⟨face, pendingInterests, requested, same⟩ := @nextBenchmarkInterest_frame jndn client throwsAt
          { state with retryTable := Function.update state.retryTable (jndn.toUri name) none }
        rw [same]
      · split
        · obtain ⟨main, face, pendingInterests, pendingFile, max, cont, requested, received, same, _⟩ :=
            @nextDownloadInterest_frame jndn client name content throwsAt
              { state with retryTable := Function.update state.retryTable (jndn.toUri name) none }
          rw [same]
        · rfl
    · rfl
  · rfl

theorem onTimeout_table :
    (onTimeout jndn name none state).retryTable = tableAfter jndn state (.timeout name none) := by
  by_cases left : 0 < state.retries jndn name
  · simp [onTimeout, tableAfter, left]
  · simp [onTimeout, tableAfter, left]

theorem table_step (quiet : event.throwsAt = none) (moved : client.step jndn before event = some after) :
    after.retryTable = tableAfter jndn before event := by
  cases event with
  | data name content throwsAt =>
      obtain ⟨_, _, _, rfl⟩ := step_data.mp moved
      exact onData_table content throwsAt
  | timeout name throwsAt =>
      obtain rfl : throwsAt = none := quiet
      obtain ⟨_, _, _, rfl⟩ := step_timeout.mp moved
      exact @onTimeout_table jndn (before.settle name) name
  | main throwsAt =>
      obtain ⟨_, _, _, _, _, _, rfl⟩ | ⟨name, _, rfl⟩ | ⟨_, _, _, _, _, rfl⟩ :=
        @mainStep_cases jndn client before after throwsAt (step_main.mp moved).2
      · rfl
      · obtain ⟨face, pendingInterests, requested, same⟩ := @requestNext_frame jndn name throwsAt before
        rw [same]
        rfl
      · rfl
  | fileManager =>
      obtain ⟨fileManager, pendingFile, filePass, cont, written, rfl⟩ :=
        fileManagerStep_frame (step_fileManager.mp moved).2
      rfl

/-- As long as the program runs, a name has as many retries left as its streak
leaves it of two, and no entry without a streak. -/
structure Streaks (jndn : Jndn) (name : Name) (past : List Event) (state : State) : Prop where
  table : state.exited = false → state.retryTable (jndn.toUri name) =
    if streak name past = 0 then none else some (2 - streak name past : Int)
  few : state.exited = false → streak name past ≤ 2

theorem Streaks.retries (streaks : Streaks jndn name past state) (running : state.exited = false) :
    state.retries jndn name = 2 - streak name past := by
  rw [State.retries, streaks.table running]
  split
  · simp_all
  · rfl

/-- No send throws, and the URI tells the name from others. -/
def Regular (jndn : Jndn) (name : Name) (event : Event) : Prop :=
  event.throwsAt = none ∧ ∀ other ∈ event.about, jndn.toUri other = jndn.toUri name → other = name

theorem tableAfter_others (regular : Regular jndn name event) (other : event.about ≠ some name) :
    tableAfter jndn state event (jndn.toUri name) = state.retryTable (jndn.toUri name) := by
  cases event with
  | data another | timeout another =>
      refine Function.update_of_ne (fun same => other ?_) _ _
      exact congrArg some (regular.2 another rfl same.symm)
  | main | fileManager => rfl

theorem streaks_initial (name : Name) : Streaks jndn name [] (.initial jndn client) where
  table _ := rfl
  few _ := Nat.zero_le 2

theorem Streaks.step (streaks : Streaks jndn name past before) (regular : Regular jndn name event)
    (moved : client.step jndn before event = some after) : Streaks jndn name (past ++ [event]) after := by
  have alive := running_of_step moved
  have table := table_step regular.1 moved
  have entry := streaks.table alive
  have few := streaks.few alive
  by_cases here : event.about = some name
  · cases event with
    | main | fileManager => cases here
    | data other content throwsAt =>
        obtain rfl : other = name := Option.some.inj here
        have ended : streak other (past ++ [.data other content throwsAt]) = 0 := by
          rw [streak_append]
          exact if_pos rfl
        refine ⟨fun _ => ?_, fun _ => by omega⟩
        rw [table, ended, if_pos rfl]
        exact Function.update_self ..
    | timeout other throwsAt =>
        obtain rfl : other = name := Option.some.inj here
        have longer : streak other (past ++ [.timeout other throwsAt]) = streak other past + 1 := by
          rw [streak_append]
          exact if_pos rfl
        have left : after.exited = false → 0 < before.retries jndn other := by
          intro running
          by_contra aborts
          simp [(exited_timeout moved).mpr aborts] at running
        have retries := streaks.retries alive
        refine ⟨fun running => ?_, fun running => ?_⟩
        · have resent := left running
          rw [table, longer, if_neg (Nat.succ_ne_zero _)]
          refine (Function.update_self ..).trans (congrArg some ?_)
          rw [if_pos resent, retries]
          omega
        · have resent := left running
          omega
  · have same : streak name (past ++ [event]) = streak name past := by
      rw [streak_append, counted_others here]
    refine ⟨fun _ => ?_, fun _ => same ▸ few⟩
    rw [table, tableAfter_others regular here, same, entry]

/-- In every run without a failing send, a timeout ends the program exactly if
it is the third of its name since the last Data of that name, and is answered
with the same Interest, once, if it is not. -/
theorem third_timeout_aborts (regular : ∀ event ∈ events, Regular jndn name event)
    (ran : (client.system jndn).run (.initial jndn client) events = some before)
    (moved : client.step jndn before (.timeout name none) = some after) :
    (after.exited = true ↔ streak name events + 1 = 3) ∧
      (after.exited = true → after.cont = false ∧ after.face = before.face.erase name) ∧
      (after.exited = false → after.face = before.face.erase name ++ [name]) := by
  have alive := running_of_step moved
  have streaks : Streaks jndn name ([] ++ events) before :=
    System.run_records_of (fun streaks regular moved => Streaks.step streaks regular moved)
      (streaks_initial name) regular ran
  have retries : before.retries jndn name = 2 - streak name events := streaks.retries alive
  have few : streak name events ≤ 2 := streaks.few alive
  have face := (step_sends moved).face
  have aborts := exited_timeout moved
  refine ⟨?_, fun exited => ?_, fun running => ?_⟩
  · rw [aborts, retries]
    omega
  · have none : ¬0 < before.retries jndn name := aborts.mp exited
    refine ⟨?_, ?_⟩
    · obtain ⟨_, _, _, rfl⟩ := step_timeout.mp moved
      have settled : ¬0 < (before.settle name).retries jndn name := none
      simp only [onTimeout, settled, if_false]
    · simpa [calls, none, passed, Event.throwsAt, Event.settled, State.settle] using face
  · have left : 0 < before.retries jndn name := by
      by_contra none
      simp [aborts.mpr none] at running
    simpa [calls, left, passed, Event.throwsAt, Event.settled, State.settle] using face

def sampleTimeouts : List Event :=
  replicate 3 (.main none) ++ replicate 2 (.timeout (benchmarkName .reference sampleBenchmark 1) none)

/-- Two timeouts of the only Interest, and a third. -/
theorem third_timeout_sample :
    ∃ before after, (sampleBenchmark.system .reference).run (.initial .reference sampleBenchmark) sampleTimeouts =
        some before ∧
      sampleBenchmark.step .reference before (.timeout (benchmarkName .reference sampleBenchmark 1) none) = some after ∧
      after.exited = true ∧ after.cont = false := by
  have runs : (((sampleBenchmark.system .reference).run (.initial .reference sampleBenchmark) sampleTimeouts).bind
      fun before => (sampleBenchmark.step .reference before
        (.timeout (benchmarkName .reference sampleBenchmark 1) none)).map fun after => (before, after)).isSome := by
    decide +kernel
  obtain ⟨⟨first, second⟩, both⟩ := Option.isSome_iff_exists.mp runs
  obtain ⟨before, ran, further⟩ := Option.bind_eq_some_iff.mp both
  obtain ⟨after, moved, _⟩ := Option.map_eq_some_iff.mp further
  have regular : ∀ event ∈ sampleTimeouts, Regular .reference (benchmarkName .reference sampleBenchmark 1) event := by
    simp [sampleTimeouts, Regular, Event.throwsAt, Event.about]
  have decided := third_timeout_aborts regular ran moved
  have third : streak (benchmarkName .reference sampleBenchmark 1) sampleTimeouts + 1 = 3 := by decide +kernel
  have exited := decided.1.mpr third
  exact ⟨before, after, ran, moved, exited, (decided.2.1 exited).1⟩

end Ndnperf.Java.Client

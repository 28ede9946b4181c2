import Mathlib.Data.List.FinRange
import Ndnperf.Library.Transition
import Ndnperf.Cxx.ServerProperties

namespace Ndnperf.Cxx

open Ndn Library.Word Library.Outcome Library.Transition

/-! The threads of `Server`: the workers in `process`, the one in `display`, the
one that runs the face, and the main thread in `stop`. -/

namespace Threads

inductive WorkerPc where
  | test
  | dequeue
  | queued (name : Name)
  | answer (name : Name)
  | count
  | time
  | exited
deriving DecidableEq, Repr

/-- Where the main thread is in `stop`; `left` dummies are still to be enqueued. -/
inductive StopPc where
  | running
  | halt
  | enqueue (left : Nat)
  | join
  | joined
deriving DecidableEq, Repr

variable {workers : Nat}

/-- Where `display` is; `left` are the places that its nested loops have not read yet. -/
inductive DisplayPc (workers : Nat) where
  | test
  | read (left : List (Fin workers × Counter))
  | exited
deriving DecidableEq, Repr

/-- The four numbers that `display` prints. -/
structure Report where
  payload : Int
  packets : Int
  qtime : Int
  ptime : Int
deriving DecidableEq, Repr

/-- One round of `display`: what it found to have changed, what it printed, and
what the workers had added to the places it read since it read them last. -/
structure Round (workers : Nat) where
  differences : Counter → Int
  report : Report
  amounts : Fin workers → Counter → List Nat

/-- The members of `Server` that the threads share, and where each of them is.
`new` and `last` are the two halves of the array `log_vars` of `display`.

The rest is a record of the past: what the workers added to each place
(`made`), the part of it that `display` knew at its last report (`base`) and
knows since it read the place (`seen`), its reports, and the elements that each
worker took after `_stop` was set (`late`). -/
structure State (workers : Nat) where
  stop : Bool
  ioStopped : Bool
  queue : List Name
  pcs : Fin workers → WorkerPc
  rows : Fin workers → Worker
  sent : List Data
  face : Bool
  stopping : StopPc
  terminated : Option Fault
  display : DisplayPc workers
  new : Counter → Int
  last : Counter → Int
  made : Fin workers → Counter → List Nat
  base : Fin workers → Counter → List Nat
  seen : Fin workers → Counter → List Nat
  rounds : List (Round workers)
  late : Fin workers → Nat

/-- After `start`; the buffers of the workers hold whatever their stacks held. -/
def State.initial (buffers : Fin workers → Bytes) : State workers where
  stop := false
  ioStopped := false
  queue := []
  pcs _ := .test
  rows thread := .start (buffers thread)
  sent := []
  face := true
  stopping := .running
  terminated := none
  display := .test
  new _ := 0
  last _ := 0
  made _ _ := []
  base _ _ := []
  seen _ _ := []
  rounds := []
  late _ := 0

def State.workerAt (state : State workers) (thread : Fin workers) (pc : WorkerPc) : State workers :=
  { state with pcs := Function.update state.pcs thread pc }

/-- A list for each place of each row, with one of them changed. -/
def put (lists : Fin workers → Counter → List Nat) (thread : Fin workers) (counter : Counter) (list : List Nat) :
    Fin workers → Counter → List Nat :=
  Function.update lists thread (Function.update (lists thread) counter list)

/-- A worker has added an amount to its row. -/
def State.grow (state : State workers) (thread : Fin workers) (counter : Counter) (amount : Nat) (row : Worker) :
    State workers :=
  { state with
    rows := Function.update state.rows thread row
    made := put state.made thread counter (state.made thread counter ++ [amount]) }

inductive Label (workers : Nat) where
  | onInterest (name : Name)
  | face
  | stop
  | worker (thread : Fin workers) (pick : Nat) (fileSystem : FileSystem) (duration : Nat)
  | display

variable (ndn : NdnCxx) (server : Server)

/-- One step of a worker. The queue gives it any of its elements, and an
exception that it throws terminates the program. -/
def workerStep (state : State workers) (thread : Fin workers) (pick : Nat) (fileSystem : FileSystem) (duration : Nat) :
    Option (State workers) :=
  match state.pcs thread with
  | .test => some (state.workerAt thread (if state.stop then .exited else .dequeue))
  | .dequeue =>
      match state.queue[pick]? with
      | some name =>
          some ({ state with
            queue := state.queue.eraseIdx pick
            late := if state.stop then Function.update state.late thread (state.late thread + 1) else state.late
            }.workerAt thread (.queued name))
      | none => none
  | .queued name =>
      some ((state.grow thread .qtime duration ((state.rows thread).add .qtime duration)).workerAt thread
        (.answer name))
  | .answer name =>
      match server.answer ndn fileSystem name (state.rows thread) with
      | .ok (data, row) =>
          some (({ state with sent := state.sent ++ [data] }.grow thread .payloadSum
            (server.payload ndn name data) row).workerAt thread .count)
      | .error fault => some { state with terminated := some fault }
  | .count => some ((state.grow thread .packetCount 1 ((state.rows thread).add .packetCount 1)).workerAt thread .time)
  | .time => some ((state.grow thread .ptime duration ((state.rows thread).add .ptime duration)).workerAt thread .test)
  | .exited => none

/-- The places in the order in which `display` reads them. -/
def places : List (Fin workers × Counter) := (List.finRange workers).flatMap fun thread => Counter.all.map (thread, ·)

/-- What a round makes of the differences: `>>` rounds down, and `/` towards zero. -/
def report (differences : Counter → Int) : Report :=
  let divisor := if differences .packetCount ≠ 0 then differences .packetCount else -1
  { payload := differences .payloadSum / 2 ^ 8
    packets := differences .packetCount / 2
    qtime := int32 ((differences .qtime).tdiv divisor)
    ptime := int32 ((differences .ptime).tdiv divisor) }

def Report.get (report : Report) : Counter → Int
  | .payloadSum => report.payload
  | .packetCount => report.packets
  | .qtime => report.qtime
  | .ptime => report.ptime

def State.differences (state : State workers) (counter : Counter) : Int :=
  int32 (state.last counter + state.new counter)

def displayStep (state : State workers) : Option (State workers) :=
  match state.display with
  | .test =>
      if state.stop then some { state with display := .exited }
      else some { state with
        display := .read places
        last := fun counter => int32 (-state.new counter)
        new := fun _ => 0 }
  | .read ((thread, counter) :: left) =>
      some { state with
        display := .read left
        new := Function.update state.new counter (int32 (state.new counter + (state.rows thread).log.get counter))
        seen := put state.seen thread counter (state.made thread counter) }
  | .read [] =>
      some { state with
        display := .test
        last := (report state.differences).get
        base := state.seen
        rounds := state.rounds ++ [{
          differences := state.differences
          report := report state.differences
          amounts := fun thread counter => (state.seen thread counter).drop (state.base thread counter).length }] }
  | .exited => none

def dummy : Name := server.namePrefix ++ ndn.nameOfUri (ascii "dummy")

def Exited (state : State workers) : Prop :=
  (∀ thread, state.pcs thread = .exited) ∧ state.display = .exited ∧ state.face = false

instance (state : State workers) : Decidable (Exited state) := inferInstanceAs (Decidable (_ ∧ _))

def stopStep (state : State workers) : Option (State workers) :=
  match state.stopping with
  | .running => some { state with stop := true, stopping := .halt }
  | .halt => some { state with ioStopped := true, stopping := .enqueue workers }
  | .enqueue (left + 1) => some { state with queue := state.queue ++ [dummy ndn server], stopping := .enqueue left }
  | .enqueue 0 => some { state with stopping := .join }
  | .join => if Exited state then some { state with stopping := .joined } else none
  | .joined => none

def step (state : State workers) (label : Label workers) : Option (State workers) :=
  match state.terminated with
  | some _ => none
  | none =>
      match label with
      | .onInterest name => if state.face then some { state with queue := state.queue ++ [name] } else none
      | .face => if state.ioStopped ∧ state.face then some { state with face := false } else none
      | .stop => stopStep ndn server state
      | .worker thread pick fileSystem duration => workerStep ndn server state thread pick fileSystem duration
      | .display => displayStep state

def system : System (State workers) (Label workers) where
  start state := ∃ buffers, state = .initial buffers
  step := step ndn server

/-! ## What a step does -/

/-- Which place a step adds to, and how much. -/
def increment (state : State workers) : Label workers → Option (Fin workers × Counter × Nat)
  | .worker thread _ fileSystem duration =>
      match state.pcs thread with
      | .queued _ => some (thread, .qtime, duration)
      | .answer name =>
          match server.answer ndn fileSystem name (state.rows thread) with
          | .ok (data, _) => some (thread, .payloadSum, server.payload ndn name data)
          | .error _ => none
      | .count => some (thread, .packetCount, 1)
      | .time => some (thread, .ptime, duration)
      | .test | .dequeue | .exited => none
  | .onInterest _ | .face | .stop | .display => none

/-- From one addition to a row to the next. -/
inductive Follows : WorkerPc → WorkerPc → Prop where
  | queued (name : Name) : Follows (.queued name) (.answer name)
  | answer (name : Name) : Follows (.answer name) .count
  | count : Follows .count .time
  | time : Follows .time .test

/-- The steps of a worker: it tests `_stop`, takes an element, adds to its row
or throws. -/
inductive Works (before : State workers) (thread : Fin workers) : Option (Fin workers × Counter × Nat) →
    State workers → Prop where
  | tested (here : before.pcs thread = .test) :
      Works before thread none (before.workerAt thread (if before.stop then .exited else .dequeue))
  | took {name : Name} {pick : Nat} (here : before.pcs thread = .dequeue) (found : before.queue[pick]? = some name) :
      Works before thread none ({ before with
        queue := before.queue.eraseIdx pick
        late := if before.stop then Function.update before.late thread (before.late thread + 1) else before.late
        }.workerAt thread (.queued name))
  | grew {counter : Counter} {amount : Nat} {row : Worker} {next : WorkerPc} (sent : List Data)
      (follows : Follows (before.pcs thread) next)
      (adds : (before.rows thread).log.Adds counter amount row.log)
      (closes : (before.rows thread).file.isOpen = false → row.file.isOpen = false) :
      Works before thread (some (thread, counter, amount))
        (({ before with sent }.grow thread counter amount row).workerAt thread next)
  | threw (fault : Fault) : Works before thread none { before with terminated := some fault }

variable {ndn server} {before after : State workers} {label : Label workers} {thread : Fin workers}
  {pick duration : Nat} {fileSystem : FileSystem}

theorem works_of_step (moved : workerStep ndn server before thread pick fileSystem duration = some after) :
    Works before thread (increment ndn server before (.worker thread pick fileSystem duration)) after := by
  cases here : before.pcs thread with
  | test =>
      simp only [workerStep, here, Option.some.injEq] at moved
      simp only [increment, here, ← moved]
      exact .tested here
  | dequeue =>
      simp only [workerStep, here] at moved
      simp only [increment, here]
      split at moved
      · rename_i name found
        exact Option.some.inj moved ▸ .took here found
      · cases moved
  | queued name =>
      simp only [workerStep, here, Option.some.injEq] at moved
      simp only [increment, here, ← moved]
      exact .grew before.sent (here ▸ .queued name) (.inl rfl) id
  | answer name =>
      simp only [workerStep, here] at moved
      simp only [increment, here]
      split at moved
      · rename_i data row answered
        exact Option.some.inj moved ▸ .grew _ (here ▸ .answer name) (Server.answer_adds answered)
          fun idle => (Server.answer_ok idle answered).2
      · rename_i fault failed
        exact Option.some.inj moved ▸ .threw fault
  | count =>
      simp only [workerStep, here, Option.some.injEq] at moved
      simp only [increment, here, ← moved]
      exact .grew before.sent (here ▸ .count) (.inl rfl) id
  | time =>
      simp only [workerStep, here, Option.some.injEq] at moved
      simp only [increment, here, ← moved]
      exact .grew before.sent (here ▸ .time) (.inl rfl) id
  | exited =>
      simp only [workerStep, here] at moved
      cases moved

/-- The main thread touches neither the workers nor the statistics. -/
theorem stopStep_frame (moved : stopStep ndn server before = some after) :
    ∃ stop ioStopped queue stopping, after = { before with stop, ioStopped, queue, stopping } := by
  unfold stopStep at moved
  split at moved
  · exact ⟨_, _, _, _, (Option.some.inj moved).symm⟩
  · exact ⟨_, _, _, _, (Option.some.inj moved).symm⟩
  · exact ⟨_, _, _, _, (Option.some.inj moved).symm⟩
  · exact ⟨_, _, _, _, (Option.some.inj moved).symm⟩
  · split at moved
    · exact ⟨_, _, _, _, (Option.some.inj moved).symm⟩
    · cases moved
  · cases moved

end Threads

end Ndnperf.Cxx

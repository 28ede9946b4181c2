import Mathlib.Data.Finset.Insert
import Ndnperf.Library.Transition
import Ndnperf.Java.Jndn
import Ndnperf.Java.PendingFile

namespace Ndnperf.Java

open Ndn Library.Word Library.Transition

/-! `Client.java`: the main thread with the face callbacks, and `FileManager`.
The face calls back inside `processEvents` only. Each access of a variable the
threads share is a step of its own, on a sequentially consistent memory. `next`
and `max` are `long`s that packets count up, so they are kept unbounded. -/

/-- The arguments of `Main`, where a missing file name selects the benchmark,
and the files of the directory it runs in. -/
structure Client where
  namePrefix : Text
  window : Int
  fileName : Option Text
  localFile : Text → Option Bytes

namespace Client

/-- Where the main thread is: in one of the loops of `run`, inside
`processEvents`, or in `nextDownloadInterest` before `file_pass.release` or
after it, with the name of the Data. -/
inductive MainPc where
  | poll
  | loop
  | events
  | release (name : Name)
  | request (name : Name)
  | ended
deriving DecidableEq, Repr

/-- Where `FileManager` is: at the test of `Main.cont`, at the two reads of
`availablePermits`, in `acquire`, at the three accesses of `nextSegment`, before
`write`, or in the last lines of its loop. -/
inductive FileManagerPc where
  | loop
  | available
  | permits
  | acquire (permits : Nat)
  | peek
  | get
  | remove (blob : Option Bytes)
  | write (blob : Bytes)
  | isPending
  | close
  | stop
  | ended
deriving DecidableEq, Repr

/-- `pendingInterests` without the times, which only the statistics use. The
last three fields record what was asked for anew, received and written. -/
structure State where
  main : MainPc
  fileManager : FileManagerPc
  face : List Name
  retryTable : Text → Option Int
  iQueue : List Name
  pendingInterests : Finset Text
  pendingFile : Option PendingFile
  filePass : Nat
  next : Int
  max : Int
  cont : Bool
  exited : Bool
  requested : List Name
  received : List (Int × Bytes)
  written : List Bytes

variable (jndn : Jndn) (client : Client)

def interests : List Name :=
  match client.fileName with
  | some fileName => [jndn.nameOfUri (client.namePrefix ++ "/download/".toList ++ fileName)]
  | none => (List.range' 1 client.window.toNat).map fun number =>
      jndn.nameOfUri (client.namePrefix ++ "/benchmark/".toList ++ decimal number)

def State.initial : State where
  main := .poll
  fileManager := .loop
  face := []
  retryTable _ := none
  iQueue := client.interests jndn
  pendingInterests := ∅
  pendingFile := none
  filePass := 0
  next := client.window
  max := 0
  cont := true
  exited := false
  requested := []
  received := []
  written := []

/-- The constructor. The capacity of `new HashMap<>(2*window, 0.5f)` is an `int`,
and a negative one is an `IllegalArgumentException` that nothing catches. -/
def new : Option State := if 0 ≤ int32 (2 * client.window) then some (.initial jndn client) else none

/-- `face.expressInterest` and the entry in `pendingInterests` after it. -/
def State.express (name : Name) (state : State) : State :=
  { state with
    face := state.face ++ [name]
    pendingInterests := insert (jndn.toUri name) state.pendingInterests }

def State.request (name : Name) (state : State) : State :=
  { state.express jndn name with requested := state.requested ++ [name] }

/-- A call of `expressInterest` in a callback, counted from zero, that throws an
`IOException`. Whether the Interest is in the face's table by then, with its
timeout, is up to jNDN: one that is kept can still be answered or time out. -/
structure Failure where
  call : Nat
  kept : Bool
deriving DecidableEq, Repr

/-- A call that throws: the entry in `pendingInterests` after it is not made. -/
def State.fail (name : Name) (kept : Bool) (state : State) : State :=
  { state with face := state.face ++ if kept then [name] else [] }

/-- The only call of a callback, with what follows it where it does not throw. -/
def attempt (throwsAt : Option Failure) (failed : Bool → State) (made : State) : State :=
  match throwsAt with
  | some ⟨0, kept⟩ => failed kept
  | _ => made

@[simp] theorem attempt_none (failed : Bool → State) (made : State) : attempt none failed made = made := rfl

/-! The callbacks. `throwsAt` is the call that throws, if one does. -/

/-- `new Name(prefix+"/benchmark/"+(next++))` -/
def nextBenchmarkInterest (throwsAt : Option Failure) (state : State) : State :=
  let name := jndn.nameOfUri (client.namePrefix ++ "/benchmark/".toList ++ decimal state.next)
  let counted := { state with next := state.next + 1 }
  attempt throwsAt (counted.fail name) (counted.request jndn name)

/-- The first rounds of the loop that follows the count. -/
def expressSegments (base : Name) : Nat → State → State
  | 0, state => state
  | rounds + 1, state => (expressSegments base rounds state).request jndn (base ++ [jndn.fromSegment rounds])

/-- The whole loop, which a call that throws ends. -/
def expressLoop (base : Name) (limit : Nat) (throwsAt : Option Failure) (state : State) : State :=
  match throwsAt with
  | some failure =>
      if failure.call < limit then
        (expressSegments jndn base failure.call state).fail (base ++ [jndn.fromSegment failure.call]) failure.kept
      else expressSegments jndn base limit state
  | none => expressSegments jndn base limit state

/-- `nextDownloadInterest` up to `file_pass.release`. A number or segment that
does not parse and a missing `pendingFile` are exceptions. -/
def nextDownloadInterest (name : Name) (content : Bytes) (throwsAt : Option Failure) (state : State) : State :=
  match name with
  | _ :: _ :: _ :: last :: _ =>
      match jndn.toSegment last, state.pendingFile with
      | some segment, some file => { state with
          main := .release name
          pendingFile := some (file.put segment content)
          received := state.received ++ [(segment, content)] }
      | _, _ => state
  | [_, _, file] =>
      match parseLong (jndn.blobText content) with
      | some max =>
          if max ≤ 0 then { state with max, cont := false }
          else
            let fileName := jndn.toEscapedString file
            let limit := (min state.next max).toNat
            expressLoop jndn (name.take 3) limit throwsAt
              { state with max, pendingFile := some (.new (client.localFile fileName) max) }
      | none => state
  | _ => state

def requestNext (name : Name) (throwsAt : Option Failure) (state : State) : State :=
  let following := name.take 3 ++ [jndn.fromSegment state.next]
  let counted := { state with main := .events, next := state.next + 1 }
  if counted.next ≤ state.max then
    attempt throwsAt (counted.fail following) (counted.request jndn following)
  else { counted with pendingInterests := insert (jndn.toUri following) counted.pendingInterests }

/-- A name that is not in `pendingInterests` is a `NullPointerException`, one
without second component an out-of-bounds access; `run` catches both. -/
def onData (name : Name) (content : Bytes) (throwsAt : Option Failure) (state : State) : State :=
  let removed := { state with retryTable := Function.update state.retryTable (jndn.toUri name) none }
  if jndn.toUri name ∈ removed.pendingInterests then
    match name[1]?.map jndn.toEscapedString with
    | some selector =>
        if selector = "benchmark".toList then client.nextBenchmarkInterest jndn throwsAt removed
        else if selector = "download".toList then client.nextDownloadInterest jndn name content throwsAt removed
        else removed
    | none => removed
  else removed

def State.retries (state : State) (name : Name) : Int := (state.retryTable (jndn.toUri name)).getD 2

def onTimeout (name : Name) (throwsAt : Option Failure) (state : State) : State :=
  let retries := state.retries jndn name
  let filled := { state with retryTable := Function.update state.retryTable (jndn.toUri name) (some retries) }
  if 0 < retries then
    attempt throwsAt (filled.fail name) { filled.express jndn name with
      retryTable := Function.update filled.retryTable (jndn.toUri name) (some (retries - 1)) }
  else { filled with cont := false, exited := true }

/-! The threads -/

def mainStep (throwsAt : Option Failure) (state : State) : Option State :=
  match state.main with
  | .poll =>
      match state.iQueue with
      | [] => some { state with main := .loop }
      | name :: rest =>
          let polled := { state with iQueue := rest }
          some (attempt throwsAt (polled.fail name) (polled.express jndn name))
  | .loop => some { state with main := if state.cont then .events else .ended }
  | .events => some { state with main := .loop }
  | .release name => some { state with filePass := state.filePass + 1, main := .request name }
  | .request name => some (requestNext jndn name throwsAt state)
  | .ended => none

def State.fileManagerAt (pc : FileManagerPc) (state : State) : State := { state with fileManager := pc }

/-- A use of `pendingFile`: null ends the thread, and is never assigned again. -/
def State.withFile (state : State) (use : PendingFile → State) : State :=
  match state.pendingFile with
  | some file => use file
  | none => state.fileManagerAt .ended

def fileManagerStep (state : State) : Option State :=
  match state.fileManager with
  | .loop => some (state.fileManagerAt (if state.cont then .available else .ended))
  | .available => some (state.fileManagerAt (if 0 < state.filePass then .permits else .acquire 1))
  | .permits => some (state.fileManagerAt (.acquire state.filePass))
  | .acquire permits =>
      if permits ≤ state.filePass then some { state with filePass := state.filePass - permits, fileManager := .peek }
      else none
  | .peek => some (state.withFile fun file => state.fileManagerAt (if file.current.isSome then .get else .isPending))
  | .get => some (state.withFile fun file => state.fileManagerAt (.remove file.current))
  | .remove blob => some (state.withFile fun file => { state with
      pendingFile := some file.advance
      fileManager := match blob with
        | some blob => .write blob
        | none => .isPending })
  -- A closed channel throws, and the loop tries the same blob again.
  | .write blob => some (state.withFile fun file =>
      if file.channel.isOpen then { state with
        pendingFile := some (file.write blob)
        fileManager := .peek
        written := state.written ++ [blob] }
      else state)
  | .isPending => some (state.withFile fun file => state.fileManagerAt (if file.isPending then .loop else .close))
  | .close => some (state.withFile fun file => { state with pendingFile := some file.close, fileManager := .stop })
  | .stop => some { state with cont := false, fileManager := .loop }
  | .ended => none

/-- A Data carries the name of the Interest it answers, as the server's do. -/
inductive Event where
  | data (name : Name) (content : Bytes) (throwsAt : Option Failure)
  | timeout (name : Name) (throwsAt : Option Failure)
  | main (throwsAt : Option Failure)
  | fileManager

/-- The face forgets an Interest before it calls back. -/
def State.settle (name : Name) (state : State) : State := { state with face := state.face.erase name }

def step (state : State) (event : Event) : Option State :=
  if state.exited then none
  else
    match event with
    | .data name content throwsAt =>
        if state.main = .events ∧ name ∈ state.face then
          some (client.onData jndn name content throwsAt (state.settle name))
        else none
    | .timeout name throwsAt =>
        if state.main = .events ∧ name ∈ state.face then some (onTimeout jndn name throwsAt (state.settle name))
        else none
    | .main throwsAt => mainStep jndn throwsAt state
    | .fileManager => fileManagerStep state

/-- A client whose constructor has returned. -/
def system : System State Event where
  start state := state = .initial jndn client
  step := client.step jndn

section Step

variable {jndn : Jndn} {client : Client} {state before after : State} {name : Name} {content : Bytes}
  {throwsAt : Option Failure}

/-- The capacity is that of a window below 2^30. -/
theorem new_eq_some (opening : 1 ≤ client.window) (size : client.window < 2 ^ 31) :
    client.new jndn = some state ↔ client.window < 2 ^ 30 ∧ state = .initial jndn client := by
  have capacity : 0 ≤ int32 (2 * client.window) ↔ client.window < 2 ^ 30 := by
    by_cases small : client.window < 2 ^ 30
    · rw [int32_of_bounds (by omega) (by omega)]
      exact iff_of_true (by omega) small
    · simp only [int32, Int.bmod_def]
      split <;> omega
  simp only [new, capacity, Option.ite_none_right_eq_some, Option.some.injEq, eq_comm (a := state)]

theorem running_of_step {event : Event} (moved : client.step jndn before event = some after) :
    before.exited = false := by
  simp only [step, Option.ite_none_left_eq_some, Bool.not_eq_true] at moved
  exact moved.1

theorem step_data :
    client.step jndn before (.data name content throwsAt) = some after ↔
      before.exited = false ∧ before.main = .events ∧ name ∈ before.face ∧
        client.onData jndn name content throwsAt (before.settle name) = after := by
  simp only [step, Option.ite_none_left_eq_some, Bool.not_eq_true, Option.ite_none_right_eq_some, Option.some.injEq,
    and_assoc]

theorem step_timeout :
    client.step jndn before (.timeout name throwsAt) = some after ↔
      before.exited = false ∧ before.main = .events ∧ name ∈ before.face ∧
        onTimeout jndn name throwsAt (before.settle name) = after := by
  simp only [step, Option.ite_none_left_eq_some, Bool.not_eq_true, Option.ite_none_right_eq_some, Option.some.injEq,
    and_assoc]

theorem step_main :
    client.step jndn before (.main throwsAt) = some after ↔
      before.exited = false ∧ mainStep jndn throwsAt before = some after := by
  simp only [step, Option.ite_none_left_eq_some, Bool.not_eq_true]

theorem step_request (here : before.main = .request name) :
    client.step jndn before (.main throwsAt) = some after ↔
      before.exited = false ∧ requestNext jndn name throwsAt before = after := by
  simp only [step_main, mainStep, here, Option.some.injEq]

theorem step_fileManager :
    client.step jndn before .fileManager = some after ↔
      before.exited = false ∧ fileManagerStep before = some after := by
  simp only [step, Option.ite_none_left_eq_some, Bool.not_eq_true]

end Step

end Client

end Ndnperf.Java

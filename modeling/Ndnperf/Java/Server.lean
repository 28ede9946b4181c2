import Mathlib.Data.Fintype.Basic
import Ndnperf.Library.Transition
import Ndnperf.Java.Jndn

namespace Ndnperf.Java

open Ndn Library.Word Library.Transition

/-! `Server.java`: the answers of `DataProcess`, and the threads that give them. -/

/-- What a path names: a file that can be opened for reading, by its inode, or
something else that exists, a directory or a file that may not be read. -/
inductive Node where
  | readable (inode : Nat)
  | other (length : Int)
deriving DecidableEq, Repr

structure FileSystem where
  lookup : Text → Option Node
  content : Nat → Bytes

/-- `f.exists()` and `f.length()`. -/
def FileSystem.size (fileSystem : FileSystem) (path : Text) : Option Int :=
  (fileSystem.lookup path).map fun
    | .readable inode => (fileSystem.content inode).length
    | .other length => length

/-- The channels in `pending_files`, as the inodes they were opened on. -/
abbrev PendingFiles := Text → Option Nat

/-- What `sign` does to a packet: it changes its signature only. -/
structure Signer where
  sign : Data → Data
  name : ∀ data, (sign data).name = data.name
  content : ∀ data, (sign data).content = data.content

def Signer.unsigned : Signer where
  sign := id
  name _ := rfl
  content _ := rfl

structure Server where
  defaultData : Text
  dataModel : Data
  benchmarkSigner : Signer
  downloadSigner : Signer

namespace Server

/-- The constructor, on the text `DATA8192`. -/
def new (jndn : Jndn) (data8192 : Text) (chunk freshness : Int) (benchmarkSigner downloadSigner : Signer) : Server :=
  let defaultData := if 0 < chunk ∧ chunk ≤ 8192 then data8192.take chunk.toNat else data8192
  { defaultData
    dataModel := { Data.fresh with
      freshnessPeriod := Double.ofInt freshness
      content := some (jndn.blob defaultData) }
    benchmarkSigner
    downloadSigner }

variable (jndn : Jndn) (server : Server)

def maxChunkSize : Int := server.defaultData.length

/-- The handler that `run` selects by the second component. -/
inductive Handler where
  | benchmark
  | download
  | ignored
deriving DecidableEq, Repr

/-- `(name.size() > 1) ? name.get(1).toEscapedString() : ""` -/
def selector (name : Name) : Text :=
  match name[1]? with
  | some component => jndn.toEscapedString component
  | none => []

def dispatch (name : Name) : Handler :=
  if selector jndn name = "benchmark".toList then .benchmark
  else if selector jndn name = "download".toList then .download
  else .ignored

def doBenchmark (name : Name) : Data :=
  server.benchmarkSigner.sign { server.dataModel with name, content := some (jndn.blob server.defaultData) }

/-- `pending_files` after the first lines of a segment request. What cannot be
opened is a `FileNotFoundException` and leaves it as it is. -/
def openChannel (fileSystem : FileSystem) (fileName : Text) (pendingFiles : PendingFiles) : PendingFiles :=
  if pendingFiles fileName = none then
    match fileSystem.lookup fileName with
    | some (.readable inode) => Function.update pendingFiles fileName (some inode)
    | _ => pendingFiles
  else pendingFiles

/-- `read(buffer, position)` into a buffer of `max_chunk_size` bytes: nothing
past the end, and an exception for a negative position. -/
def readChannel (content : Bytes) (position : Int) : Option Bytes :=
  if position < 0 then none else some ((content.drop position.toNat).take server.maxChunkSize.toNat)

def fragments (length : Int) : Int := (int64 (length + server.maxChunkSize - 1)).tdiv server.maxChunkSize

/-- `doDownload`: the Data that is put, if any, and `pending_files` afterwards.
A component that is no segment number leaves `segment` at zero. -/
def doDownload (fileSystem : FileSystem) (name : Name) (pendingFiles : PendingFiles) : Option Data × PendingFiles :=
  match name with
  | _ :: _ :: file :: last :: _ =>
      let fileName := jndn.toEscapedString file
      let segment := (jndn.toSegment last).getD 0
      let opened := openChannel fileSystem fileName pendingFiles
      match (opened fileName).bind fun inode =>
          server.readChannel (fileSystem.content inode) (int64 (server.maxChunkSize * segment)) with
      | some bytes => (some (server.downloadSigner.sign { server.dataModel with name, content := some bytes }), opened)
      | none => (none, opened)
  | [_, _, file] =>
      let fragment := match fileSystem.size (jndn.toEscapedString file) with
        | some length => server.fragments length
        | none => 0
      (some (server.downloadSigner.sign { server.dataModel with name, content := some (jndn.blob (decimal fragment)) }),
        pendingFiles)
  | _ => (none, pendingFiles)

/-! The threads -/

/-- Where a `DataProcess` thread is: before `take`, `pending_interest.get`,
`pending_interest.remove` or the handler. -/
inductive WorkerPc where
  | take
  | get (name : Name)
  | remove (name : Name)
  | handle (name : Name)
deriving DecidableEq, Repr

/-- The queue with the threads around it. `offering` is the Interest whose time
`onInterest` has put and whose name it has not offered yet; `taken` and `sent`
record what the threads took and put on the face so far. -/
structure State (Thread : Type) where
  pendingInterest : Text → Option Int
  offering : Option Name
  queue : List Name
  workers : Thread → WorkerPc
  pendingFiles : PendingFiles
  taken : List Name
  sent : List Data

inductive Label (Thread : Type) where
  | onInterest (name : Name) (time : Int)
  | offer
  | worker (thread : Thread) (fileSystem : FileSystem)

variable {Thread : Type} [DecidableEq Thread]

def State.workerAt (state : State Thread) (thread : Thread) (pc : WorkerPc) : State Thread :=
  { state with workers := Function.update state.workers thread pc }

def State.send (state : State Thread) (data : Option Data) : State Thread :=
  { state with sent := state.sent ++ data.toList }

/-- One step of `DataProcess.run`. A missing time is a `NullPointerException`
that the loop catches, so the name is dropped. -/
def workerStep (state : State Thread) (thread : Thread) (fileSystem : FileSystem) : Option (State Thread) :=
  match state.workers thread with
  | .take =>
      match state.queue with
      | name :: rest => some ({ state with queue := rest, taken := state.taken ++ [name] }.workerAt thread (.get name))
      | [] => none
  | .get name =>
      match state.pendingInterest (jndn.toUri name) with
      | some _ => some (state.workerAt thread (.remove name))
      | none => some (state.workerAt thread .take)
  | .remove name =>
      some ({ state with
        pendingInterest := Function.update state.pendingInterest (jndn.toUri name) none }.workerAt thread
          (.handle name))
  | .handle name =>
      match dispatch jndn name with
      | .benchmark => some ((state.send (some (server.doBenchmark jndn name))).workerAt thread .take)
      | .download =>
          let (data, pendingFiles) := server.doDownload jndn fileSystem name state.pendingFiles
          some (({ state with pendingFiles }.send data).workerAt thread .take)
      | .ignored => some (state.workerAt thread .take)

def step (state : State Thread) : Label Thread → Option (State Thread)
  | .onInterest name time =>
      match state.offering with
      | none => some { state with
          pendingInterest := Function.update state.pendingInterest (jndn.toUri name) (some time)
          offering := some name }
      | some _ => none
  | .offer =>
      match state.offering with
      | some name => some { state with offering := none, queue := state.queue ++ [name] }
      | none => none
  | .worker thread fileSystem => workerStep jndn server state thread fileSystem

def State.initial : State Thread where
  pendingInterest _ := none
  offering := none
  queue := []
  workers _ := .take
  pendingFiles _ := none
  taken := []
  sent := []

def system : System (State Thread) (Label Thread) where
  start state := state = .initial
  step := step jndn server

end Server

end Ndnperf.Java

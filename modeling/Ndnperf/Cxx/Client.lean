import Mathlib.Data.List.AList
import Ndnperf.Library.Transition
import Ndnperf.Library.Word
import Ndnperf.Cxx.NdnCxx
import Ndnperf.Cxx.Stream

namespace Ndnperf.Cxx

open Ndn Library.Word Library.Transition

/-! `client.cpp`. The face is modelled by the Interests it holds together with
the handlers they were expressed with. The `size_t` counters and accumulators
are natural numbers: it is assumed that none of them reaches 2^64. Times are
microseconds of the steady clock. -/

/-- An Interest without its nonce, which nothing reads. -/
structure Interest where
  name : Name
  mustBeFresh : Bool
deriving DecidableEq, Repr

inductive DataHandler where
  | onData (start : Int)
  | onDataFile (segment : Nat)
deriving DecidableEq, Repr

/-- The Timeout handler of `expressInterest` with its bound arguments. The Nack
handler is always `onNack`, which binds none. -/
inductive TimeoutHandler where
  | onTimeout (retries : Nat) (start : Int)
  | onTimeoutFile (segment : Int) (retries : Nat)
deriving DecidableEq, Repr

def TimeoutHandler.retries : TimeoutHandler → Nat
  | .onTimeout retries _ => retries
  | .onTimeoutFile _ retries => retries

structure Pending where
  interest : Interest
  onData : DataHandler
  onTimeout : TimeoutHandler
deriving DecidableEq, Repr

inductive Status where
  | running
  | exited (code : Int)
  /-- A Data without a final block, or a component that is no segment number. -/
  | faulted
deriving DecidableEq, Repr

/-- The members of `Client` that `main` sets before `run` and nothing changes afterwards. -/
structure Client where
  namePrefix : Name
  window : Nat
  filePath : Bytes
  exitOnNack : Bool

namespace Client

structure State where
  first : Bool
  pktCount : Nat
  payloadSize : Nat
  rtt : Nat
  download : Bool
  currentPacket : Nat
  currentSegment : Nat
  maxSegment : Nat
  pendingSegments : AList (fun _ : Nat => Data)
  file : OfStream
  face : List Pending
  status : Status

def State.initial : State where
  first := true
  pktCount := 0
  payloadSize := 0
  rtt := 0
  download := false
  currentPacket := 0
  currentSegment := 0
  maxSegment := 0
  pendingSegments := ∅
  file := .closed
  face := []
  status := .running

def State.express (state : State) (pending : Pending) : State := { state with face := state.face ++ [pending] }

variable (ndn : NdnCxx) (client : Client)

def localName (path : Bytes) : Bytes := (path.reverse.takeWhile (· ≠ 47)).reverse

def downloadInterest (name : Name) (segment retries : Nat) : Pending where
  interest := { name, mustBeFresh := true }
  onData := .onDataFile segment
  onTimeout := .onTimeoutFile (int32 segment) retries

def benchmarkInterest (name : Name) (start : Int) (retries : Nat) : Pending where
  interest := { name, mustBeFresh := true }
  onData := .onData start
  onTimeout := .onTimeout retries start

def baseName (download : Bool) : Name :=
  if download then client.namePrefix ++ ndn.nameOfUri (ascii "download") ++ ndn.nameOfUri client.filePath
  else client.namePrefix ++ ndn.nameOfUri (ascii "benchmark")

def expressNext (now : Int) (state : State) : State :=
  let name := client.baseName ndn state.download ++ [ndn.fromSegment state.currentPacket]
  let pending :=
    if state.download then downloadInterest name state.currentPacket 5 else benchmarkInterest name now 5
  { state.express pending with currentPacket := state.currentPacket + 1 }

def expressWindow (now : Int) : Nat → State → State
  | 0, state => state
  | rounds + 1, state => expressWindow now rounds (client.expressNext ndn now state)

/-- `run`, where `opens` tells whether the local file can be opened. -/
def run (opens : Bool) (now : Int) (state : State) : State :=
  let started :=
    if client.filePath.isEmpty then state
    else { state with file := state.file.openEmpty opens (localName client.filePath), download := true }
  client.expressWindow ndn now (client.window - started.currentPacket) started

def onNack (interest : Interest) (now : Int) (state : State) : State :=
  if client.exitOnNack then { state with status := .exited (-1) }
  else if state.download then
    match interest.name.getLast?.bind ndn.toSegment with
    | some segment =>
        state.express
          { interest, onData := .onDataFile segment, onTimeout := .onTimeoutFile (int32 segment) 5 }
    | none => { state with status := .faulted }
  else state.express { interest, onData := .onData now, onTimeout := .onTimeout 5 now }

/-! Benchmark -/

/-- `std::to_string` -/
def toString (value : Nat) : Bytes := (Nat.toDigits 10 value).map fun digit => UInt8.ofNat digit.toNat

def onData (data : Data) (start now : Int) (state : State) : State :=
  let name := client.namePrefix ++ ndn.nameOfUri (ascii "benchmark") ++ ndn.nameOfUri (toString state.currentPacket)
  let answered := { state with
    rtt := state.rtt + (now - start).toNat
    first := false
    currentPacket := state.currentPacket + 1
    pktCount := state.pktCount + 1
    payloadSize := state.payloadSize + data.content.length }
  answered.express (benchmarkInterest name now 5)

def onTimeout (interest : Interest) (retries : Nat) (start : Int) (state : State) : State :=
  if 0 < retries then
    state.express { interest, onData := .onData start, onTimeout := .onTimeout (retries - 1) start }
  else { state with status := .exited 1 }

/-- The three numbers `display` prints, evaluated from left to right, and the state it leaves. -/
def display (state : State) : (Nat × Nat × Nat) × State :=
  let payload := state.payloadSize / 2 ^ 8
  let packets := state.pktCount / 2
  let latency := state.rtt / (if packets ≠ 0 then packets else uint64 (-1))
  ((payload, packets, latency), { state with rtt := 0, payloadSize := 0, pktCount := 0 })

/-! Download -/

/-- The `while` loop of `onDataFile`. Every round erases an entry of
`_pending_segments`, so the number of entries bounds the rounds. -/
def writePending : Nat → State → State
  | 0, state => state
  | rounds + 1, state =>
      match state.pendingSegments.lookup state.currentSegment with
      | none => state
      | some data => writePending rounds { state with
          file := state.file.write data.content
          pendingSegments := state.pendingSegments.erase state.currentSegment
          currentSegment := state.currentSegment + 1 }

def expressFollowing (data : Data) (state : State) : State :=
  if state.currentPacket ≤ state.maxSegment then
    let name := data.name.dropLast ++ [ndn.fromSegment state.currentPacket]
    { state.express (downloadInterest name state.currentPacket 5) with currentPacket := state.currentPacket + 1 }
  else state

def onDataFile (segment : Nat) (data : Data) (state : State) : State :=
  match data.finalBlock.bind ndn.toSegment with
  | none => { state with status := .faulted }
  | some maxSegment =>
      let stored := { state with
        maxSegment
        payloadSize := state.payloadSize + data.content.length
        pendingSegments := state.pendingSegments.insert segment data }
      let drained := writePending stored.pendingSegments.keys.length stored
      if drained.currentSegment > drained.maxSegment then
        { drained with file := drained.file.close, status := .exited 0 }
      else expressFollowing ndn data drained

def onTimeoutFile (segment : Int) (interest : Interest) (retries : Nat) (state : State) : State :=
  if 0 < retries then
    state.express
      { interest, onData := .onDataFile (uint64 segment), onTimeout := .onTimeoutFile segment (retries - 1) }
  else { state with status := .exited 1 }

/-- The three numbers `displayFile` prints, and the state it leaves. -/
def displayFile (state : State) : (Nat × Nat × Nat) × State :=
  ((uint64 (state.currentSegment - 1), state.maxSegment, state.payloadSize / 2 ^ 6), { state with payloadSize := 0 })

/-! The event loop -/

def handleData (handler : DataHandler) (data : Data) (now : Int) : State → State :=
  match handler with
  | .onData start => client.onData ndn data start now
  | .onDataFile segment => onDataFile ndn segment data

def handleTimeout (handler : TimeoutHandler) (interest : Interest) : State → State :=
  match handler with
  | .onTimeout retries start => onTimeout interest retries start
  | .onTimeoutFile segment retries => onTimeoutFile segment interest retries

inductive Event where
  | data (pending : Pending) (data : Data) (now : Int)
  | nack (pending : Pending) (now : Int)
  | timeout (pending : Pending)
  | timer

/-- The Interest an event settles: it leaves the face before its handler runs. -/
def State.settle (state : State) (pending : Pending) : State := { state with face := state.face.erase pending }

/-- One event of a client that has not exited. Data matches an Interest of the
same name; a Data that matches several Interests is several events. -/
def step (state : State) (event : Event) : Option State :=
  if state.status = .running then
    match event with
    | .data pending data now =>
        if pending ∈ state.face ∧ data.name = pending.interest.name then
          some (client.handleData ndn pending.onData data now (state.settle pending))
        else none
    | .nack pending now =>
        if pending ∈ state.face then some (client.onNack ndn pending.interest now (state.settle pending)) else none
    | .timeout pending =>
        if pending ∈ state.face then some (handleTimeout pending.onTimeout pending.interest (state.settle pending))
        else none
    | .timer => some (if state.download then (displayFile state).2 else (display state).2)
  else none

def system (opens : Bool) : System State Event where
  start state := ∃ now, state = client.run ndn opens now .initial
  step := client.step ndn

end Client

end Ndnperf.Cxx

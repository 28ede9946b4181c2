import Ndnperf.Library.Word
import Ndnperf.Cxx.NdnCxx
import Ndnperf.Cxx.Stream

namespace Ndnperf.Cxx

open Ndn Library.Word

/-! `server.cpp`: the option loop of `main` and the worker threads of `Server`. -/

inductive SignatureType where
  | digestSha256
  | sha256WithRsa
  | sha256WithEcdsa
deriving DecidableEq, Repr

structure Options where
  concurrency : Nat
  namePrefix : Bytes
  keyType : SignatureType
  keySize : Nat
  payloadSize : Nat
  freshness : Nat
deriving DecidableEq, Repr

/-- The values `main` starts from; the thread count is that of the machine. -/
def Options.default (hardwareConcurrency : Nat) : Options where
  concurrency := hardwareConcurrency
  namePrefix := ascii "/throughput"
  keyType := .digestSha256
  keySize := 0
  payloadSize := 8192
  freshness := 0

def atoiDigits : Bytes → Nat → Nat
  | [], value => value
  | byte :: rest, value =>
      if 48 ≤ byte ∧ byte ≤ 57 then atoiDigits rest (value * 10 + (byte.toNat - 48)) else value

def isSpace (byte : UInt8) : Bool := byte == 32 || (9 ≤ byte && byte ≤ 13)

/-- `atoi`, for texts whose value fits in an int. -/
def atoi (text : Bytes) : Int :=
  match text.dropWhile isSpace with
  | 45 :: rest => -(atoiDigits rest 0)
  | 43 :: rest => atoiDigits rest 0
  | rest => atoiDigits rest 0

/-- `if (atoi(argv[++i]) >= 0) target = atoi(argv[i]);` -/
def nonNegativeOption (text : Bytes) (old : Nat) : Nat := if 0 ≤ atoi text then (atoi text).toNat else old

def optionLetter (option : Bytes) : Option UInt8 := option[1]?

/-- The option loop of `main`. `none` stands for the usage text, and for an
option that is last on the line and lacks its value. -/
def parseOptions : List Bytes → Options → Option Options
  | [], options => some options
  | [_], _ => none
  | option :: value :: rest, options =>
      match optionLetter option with
      | some 112 => parseOptions rest { options with namePrefix := value }
      | some 107 =>
          parseOptions rest
            (if value = ascii "rsa" then { options with keyType := .sha256WithRsa }
            else if value = ascii "ecdsa" then { options with keyType := .sha256WithEcdsa }
            else options)
      | some 115 => parseOptions rest { options with keySize := nonNegativeOption value options.keySize }
      | some 116 => parseOptions rest { options with concurrency := nonNegativeOption value options.concurrency }
      | some 99 => parseOptions rest { options with payloadSize := nonNegativeOption value options.payloadSize }
      | some 102 => parseOptions rest { options with freshness := nonNegativeOption value options.freshness }
      | _ => none

structure Server where
  namePrefix : Name
  content : Bytes
  payloadSize : Nat
  freshness : Nat

/-- The server `main` constructs; `payload` is the text made by `gen_random`. -/
def Options.server (ndn : NdnCxx) (options : Options) (payload : Bytes) : Server where
  namePrefix := ndn.nameOfUri options.namePrefix
  content := payload
  payloadSize := options.payloadSize
  freshness := options.freshness

structure LogVars where
  payloadSum : Int
  packetCount : Int
  qtime : Int
  ptime : Int
deriving DecidableEq, Repr

/-- The locals of `process` that outlive one iteration, and the row it accumulates in. -/
structure Worker where
  file : IfStream
  buffer : Bytes
  log : LogVars
deriving DecidableEq, Repr

def Worker.start (stack : Bytes) : Worker where
  file := .closed
  buffer := stack
  log := { payloadSum := 0, packetCount := 0, qtime := 0, ptime := 0 }

/-- The four places of a row of `_log_vars`. -/
inductive Counter where
  | payloadSum
  | packetCount
  | qtime
  | ptime
deriving DecidableEq, Repr

def Counter.all : List Counter := [.payloadSum, .packetCount, .qtime, .ptime]

def LogVars.get (log : LogVars) : Counter → Int
  | .payloadSum => log.payloadSum
  | .packetCount => log.packetCount
  | .qtime => log.qtime
  | .ptime => log.ptime

/-- `i[counter] += amount` -/
def LogVars.add (log : LogVars) (amount : Int) : Counter → LogVars
  | .payloadSum => { log with payloadSum := int32 (log.payloadSum + amount) }
  | .packetCount => { log with packetCount := int32 (log.packetCount + amount) }
  | .qtime => { log with qtime := int32 (log.qtime + amount) }
  | .ptime => { log with ptime := int32 (log.ptime + amount) }

def Worker.add (worker : Worker) (counter : Counter) (amount : Int) : Worker :=
  { worker with log := worker.log.add amount counter }

/-- What a row is after an amount was added to one of its places, or nothing was. -/
def LogVars.Adds (log : LogVars) (counter : Counter) (amount : Nat) (next : LogVars) : Prop :=
  next = log.add amount counter ∨ amount = 0 ∧ next = log

/-- An element of `_queue`, with the two durations the iteration measures, in microseconds. -/
structure Request where
  name : Name
  queueTime : Int
  processingTime : Int
deriving DecidableEq, Repr

/-- What stops a worker thread, and with it the server. -/
inductive Fault where
  | nameIndex
  | notSegment
  | divisionByZero
deriving DecidableEq, Repr

namespace Server

variable (ndn : NdnCxx) (server : Server)

/-- `name.getSubName(_prefix.size() + 1).getPrefix(-1).toUri().erase(0, 1)` -/
def filePath (name : Name) : Bytes :=
  (ndn.nameToUri (name.drop (server.namePrefix.length + 1)).dropLast).drop 1

/-- `((long)file.tellg() - 1) / _payload_size`, a division of unsigned numbers
whose quotient is stored in a `long`. -/
def maxSegNum (endOffset : Int) (payloadSize : Nat) : Except Fault Int :=
  if payloadSize = 0 then .error .divisionByZero
  else .ok (int64 (uint64 (endOffset - 1) / payloadSize : Nat))

/-- `name.get(index)`, which needs an index in range. -/
def component (name : Name) (index : Nat) : Except Fault Component :=
  match name[index]? with
  | some component => .ok component
  | none => .error .nameIndex

def segmentNumber (component : Component) : Except Fault Nat :=
  match ndn.toSegment component with
  | some segment => .ok segment
  | none => .error .notSegment

/-- The `toSegment() * _payload_size` of the source: an unsigned product that
becomes a signed stream offset. -/
def segmentOffset (segment payloadSize : Nat) : Int := int64 (segment * payloadSize % 2 ^ 64 : Nat)

/-- Seek, read into the buffer and fill in the Data, once both numbers are known. -/
def fill (data : Data) (worker : Worker) (maxSegNum : Int) (segment : Nat) : Data × Worker :=
  let (bytes, file) := (worker.file.seekg (segmentOffset segment server.payloadSize)).read server.payloadSize
  let buffer := bytes ++ worker.buffer.drop bytes.length
  ({ data with
      content := buffer.take file.gcount
      finalBlock := some (ndn.fromSegment (uint64 maxSegNum)) },
    { worker with
      file
      buffer
      log := { worker.log with payloadSum := int32 (worker.log.payloadSum + file.gcount) } })

def readSegment (name : Name) (data : Data) (worker : Worker) : Except Fault (Data × Worker) := do
  let maxSegNum ← maxSegNum worker.file.tellg server.payloadSize
  let last ← component name (name.length - 1)
  let segment ← segmentNumber ndn last
  return server.fill ndn data worker maxSegNum segment

def download (fileSystem : FileSystem) (name : Name) (data : Data) (worker : Worker) :
    Except Fault (Data × Worker) := do
  let opened := { worker with file := worker.file.openAtEnd fileSystem (server.filePath ndn name) }
  let (data, read) ←
    if opened.file.isOpen then server.readSegment ndn name data opened else pure (data, opened)
  return (data, { read with file := read.file.close })

def generated (data : Data) (worker : Worker) : Data × Worker :=
  ({ data with content := server.content },
    { worker with
      log := { worker.log with payloadSum := int32 (worker.log.payloadSum + server.payloadSize) } })

/-- The part of an iteration between the two measured durations. -/
def answer (fileSystem : FileSystem) (name : Name) (worker : Worker) : Except Fault (Data × Worker) := do
  let empty : Data := { name, freshnessPeriod := server.freshness, content := [], finalBlock := none }
  let selector ← component name server.namePrefix.length
  if ndn.componentToUri selector = ascii "download" then server.download ndn fileSystem name empty worker
  else pure (server.generated empty worker)

/-- What an answer adds to the first place of the row. -/
def payload (name : Name) (data : Data) : Nat :=
  if name[server.namePrefix.length]?.map ndn.componentToUri = some (ascii "download") then data.content.length
  else server.payloadSize

/-- One iteration of the loop in `Server::process`: the Data that is put, and the worker after it. -/
def process (fileSystem : FileSystem) (request : Request) (worker : Worker) : Except Fault (Data × Worker) := do
  let started := { worker with
    log := { worker.log with qtime := int32 (worker.log.qtime + request.queueTime) } }
  let (data, answered) ← server.answer ndn fileSystem request.name started
  return (data, { answered with
    log := { answered.log with
      packetCount := int32 (answered.log.packetCount + 1)
      ptime := int32 (answered.log.ptime + request.processingTime) } })

/-- Everything one worker thread has been through: the bytes its stack held at
the start and the requests it served, each under the file system of that moment. -/
structure History where
  stack : Bytes
  served : List (FileSystem × Request)

def processAll (worker : Worker) : List (FileSystem × Request) → Except Fault Worker
  | [] => .ok worker
  | (fileSystem, request) :: rest => do
      let (_, next) ← server.process ndn fileSystem request worker
      processAll next rest

def History.worker (history : History) : Except Fault Worker :=
  server.processAll ndn (.start history.stack) history.served

end Server

end Ndnperf.Cxx

import Ndnperf.RabbitMQ.SerializableData

namespace Ndnperf.RabbitMQ

open Ndn Java Library.Wire

/-! `RabbitMQServer.java` and `RabbitMQWorker.java`: the Data objects that the
two loops keep, and the messages between them. -/

/-- The four fields a signature is computed over. A freshness period is encoded
only where it was set. -/
structure SignedPortion where
  name : Name
  freshnessPeriod : Option Double
  content : Bytes
  keyLocator : Option Name
deriving DecidableEq, Repr

def signedPortion (data : Data) : SignedPortion where
  name := data.name
  freshnessPeriod := if data.freshnessPeriod.nonNegative then some data.freshnessPeriod else none
  content := data.content.getD []
  keyLocator := data.keyLocator

/-- The key chain: which key locator stands for a certificate, and the
signature of the fields above. -/
structure KeyChain where
  locator : Name → Name
  signature : SignedPortion → Bytes

/-- `sign` sets the key locator of its argument before it signs. -/
def KeyChain.sign (keyChain : KeyChain) (data : Data) (certificateName : Name) : Data :=
  let located := { data with keyLocator := some (keyChain.locator certificateName) }
  { located with signatureBits := some (keyChain.signature (signedPortion located)) }

inductive Fault where
  | wire (fault : Library.Wire.Fault)
  | stringIndex
deriving DecidableEq, Repr

def decoding (program : Except Library.Wire.Fault α) : Except Fault α := program.mapError .wire

/-- `substring(0, end)` -/
def substring (text : Text) (stop : Int) : Except Fault Text :=
  if 0 ≤ stop ∧ stop ≤ text.length then .ok (text.take stop.toNat) else .error .stringIndex

variable (jndn : Jndn) (keyChain : KeyChain)

/-- `RabbitMQServer` as its constructor leaves it. -/
structure RabbitMQServer where
  defaultData : Text
  dataModel : Data
deriving DecidableEq, Repr

/-- The constructor, on the text of `DefaultData.txt`. -/
def rabbitMQServer (file : Text) (chunk freshness : Int) : Except Fault RabbitMQServer := do
  let defaultData ← if 0 < chunk ∧ chunk ≤ 8192 then substring file chunk else .ok file
  return {
    defaultData
    dataModel := { Data.fresh with
      freshnessPeriod := Double.ofInt freshness
      content := some (jndn.blob defaultData) } }

namespace RabbitMQServer

variable (server : RabbitMQServer)

def onInterest (name : Name) : Except Fault Bytes :=
  decoding (SerializableData.serializeInterest jndn name server.defaultData.length)

/-- One reply in `run`: the decoded object is what goes on the face, and is reused for the next reply. -/
def receive (message : Bytes) (data : Data) : Except Fault Data :=
  decoding (SerializableData.deserializeSignature jndn message data)

def receiveAll (data : Data) : List Bytes → Except Fault Data
  | [] => .ok data
  | message :: rest => do
      let next ← receive jndn message data
      receiveAll next rest

end RabbitMQServer

namespace RabbitMQWorker

/-- One iteration of `run`: the object that was signed, kept for the next iteration, and the reply. -/
def handle (file : Text) (certificateName : Name) (message : Bytes) (data : Data) : Except Fault (Data × Bytes) := do
  let (chunk, named) ← decoding (SerializableData.deserializeInterest jndn message data)
  let content ← substring file chunk
  let signed := keyChain.sign { named with content := some (jndn.blob content) } certificateName
  let reply ← decoding (SerializableData.serializeSignature jndn signed)
  return (signed, reply)

def handleAll (file : Text) (certificateName : Name) (data : Data) : List Bytes → Except Fault Data
  | [] => .ok data
  | message :: rest => do
      let (next, _) ← handle jndn keyChain file certificateName message data
      handleAll file certificateName next rest

end RabbitMQWorker

end Ndnperf.RabbitMQ

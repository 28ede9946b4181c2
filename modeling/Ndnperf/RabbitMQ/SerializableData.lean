import Ndnperf.Java.Jndn

namespace Ndnperf.RabbitMQ

open Ndn Java Library.Word Library.Wire

/-! `SerializableData.java`. Each encoder is the buffer it fills, followed by
the array of that buffer; each decoder maps the object it is called on to the
object afterwards. -/

namespace SerializableData

def putInt (value : Int) (buffer : ByteBuffer) : Except Fault ByteBuffer :=
  buffer.putWord 4 (value % 2 ^ 32).toNat

def getInt (buffer : ByteBuffer) : Except Fault (Int × ByteBuffer) := do
  let (word, rest) ← buffer.getWord 4
  return (int32 word, rest)

def putDouble (value : Double) (buffer : ByteBuffer) : Except Fault ByteBuffer := buffer.putWord 8 value.bits.toNat

def getDouble (buffer : ByteBuffer) : Except Fault (Double × ByteBuffer) := do
  let (word, rest) ← buffer.getWord 8
  return (⟨UInt64.ofNat word⟩, rest)

/-- `blob.buf() != null ? blob.buf().capacity() : 0` -/
def blobSize (blob : Option Bytes) : Nat := (blob.map List.length).getD 0

/-- `if (blob.buf() != null) buffer.put(blob.buf())` -/
def putBlob (blob : Option Bytes) (buffer : ByteBuffer) : Except Fault ByteBuffer :=
  match blob with
  | some bytes => buffer.put bytes
  | none => .ok buffer

def wrap (raw : Bytes) : Except Fault ByteBuffer := do
  let buffer ← ByteBuffer.allocate raw.length
  let filled ← buffer.put raw
  return filled.flip

variable (jndn : Jndn)

def nameBytes (name : Name) : Bytes := jndn.getBytes (jndn.toUri name)

/-- A length and that many bytes, read one by one. A negative length cannot
become an array. -/
def getName (buffer : ByteBuffer) : Except Fault (Name × ByteBuffer) := do
  let (size, rest) ← getInt buffer
  if size < 0 then throw .negativeSize
  let (bytes, rest) ← rest.getBytes size.toNat
  return (jndn.nameOfUri (jndn.ofBytes bytes), rest)

/-- Nothing is set where the length is not positive. -/
def getBlob (buffer : ByteBuffer) : Except Fault (Option Bytes × ByteBuffer) := do
  let (size, rest) ← getInt buffer
  if 0 < size then
    let (bytes, rest) ← rest.getBytes size.toNat
    return (some bytes, rest)
  else return (none, rest)

def serializeBuffer (data : Data) : Except Fault ByteBuffer := do
  let name := nameBytes jndn data.name
  let buffer ← ByteBuffer.allocate
    (int32 (name.length + blobSize data.content + blobSize data.signatureBits + 3 * 4 + 8))
  let buffer ← putInt name.length buffer
  let buffer ← buffer.put name
  let buffer ← putDouble data.freshnessPeriod buffer
  let buffer ← putInt (blobSize data.content) buffer
  let buffer ← putBlob data.content buffer
  let buffer ← putInt (blobSize data.signatureBits) buffer
  putBlob data.signatureBits buffer

def serialize (data : Data) : Except Fault Bytes := do
  let buffer ← serializeBuffer jndn data
  return buffer.array

def deserialize (raw : Bytes) (data : Data) : Except Fault Data := do
  let buffer ← wrap raw
  let (name, buffer) ← getName jndn buffer
  let (freshnessPeriod, buffer) ← getDouble buffer
  let (content, buffer) ← getBlob buffer
  let (signature, _) ← getBlob buffer
  return { data with
    name
    freshnessPeriod
    content := content.or data.content
    signatureBits := signature.or data.signatureBits }

def serializeInterestBuffer (name : Name) (chunkSize : Int) : Except Fault ByteBuffer := do
  let bytes := nameBytes jndn name
  let buffer ← ByteBuffer.allocate (int32 (bytes.length + 2 * 4))
  let buffer ← putInt bytes.length buffer
  let buffer ← buffer.put bytes
  putInt chunkSize buffer

/-- `serialize_interest` -/
def serializeInterest (name : Name) (chunkSize : Int) : Except Fault Bytes := do
  let buffer ← serializeInterestBuffer jndn name chunkSize
  return buffer.array

/-- `deserialize_interest`: the chunk size it returns, and the object with the name set. -/
def deserializeInterest (raw : Bytes) (data : Data) : Except Fault (Int × Data) := do
  let buffer ← wrap raw
  let (name, buffer) ← getName jndn buffer
  let (chunkSize, _) ← getInt buffer
  return (chunkSize, { data with name })

def serializeSignatureBuffer (data : Data) : Except Fault ByteBuffer := do
  let name := nameBytes jndn data.name
  let buffer ← ByteBuffer.allocate (int32 (name.length + blobSize data.signatureBits + 2 * 4))
  let buffer ← putInt name.length buffer
  let buffer ← buffer.put name
  let buffer ← putInt (blobSize data.signatureBits) buffer
  putBlob data.signatureBits buffer

/-- `serialize_signature` -/
def serializeSignature (data : Data) : Except Fault Bytes := do
  let buffer ← serializeSignatureBuffer jndn data
  return buffer.array

/-- `deserialize_signature` -/
def deserializeSignature (raw : Bytes) (data : Data) : Except Fault Data := do
  let buffer ← wrap raw
  let (name, buffer) ← getName jndn buffer
  let (signature, _) ← getBlob buffer
  return { data with name, signatureBits := signature.or data.signatureBits }

end SerializableData

end Ndnperf.RabbitMQ

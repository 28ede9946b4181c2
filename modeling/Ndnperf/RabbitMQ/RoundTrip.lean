import Ndnperf.RabbitMQ.SerializableData

namespace Ndnperf.RabbitMQ.SerializableData

open Ndn Java Library.Word Library.Outcome Library.Wire Library.Wire.ByteBuffer

variable {jndn : Jndn} {data object : Data} {name : Name} {blob : Option Bytes} {value : Int} {bytes : Bytes}

/-! ## The fields one by one -/

def intBytes (value : Int) : Bytes := bigEndian 4 (value % 2 ^ 32).toNat

@[simp] theorem intBytes_length : (intBytes value).length = 4 := bigEndian_length _ _

theorem blobSize_eq : blobSize blob = (blob.getD []).length := by cases blob <;> rfl

theorem writes_putInt (value : Int) : Writes (putInt value) (intBytes value) := writes_put _

theorem writes_putDouble (value : Double) : Writes (putDouble value) (bigEndian 8 value.bits.toNat) := writes_put _

theorem writes_putBlob (blob : Option Bytes) : Writes (putBlob blob) (blob.getD []) := by
  cases blob with
  | none => exact writes_nothing
  | some bytes => exact writes_put bytes

theorem advances_putInt (value : Int) : Advances (putInt value) 4 := by
  have advances := advances_put (intBytes value)
  rw [intBytes_length] at advances
  exact advances

theorem advances_putBlob (blob : Option Bytes) : Advances (putBlob blob) (blobSize blob) := by
  cases blob with
  | none => exact advances_nothing
  | some bytes => exact advances_put bytes

theorem reads_getInt (lower : -2 ^ 31 ≤ value) (upper : value < 2 ^ 31) : Reads getInt value (intBytes value) := by
  have signed : int32 (((value % 2 ^ 32).toNat % 256 ^ 4 : Nat) : Int) = value := by
    have word : (((value % 2 ^ 32).toNat % 256 ^ 4 : Nat) : Int) = value % 2 ^ 32 := by omega
    rw [word, int32]
    exact (Int.emod_bmod _ _).trans (int32_of_bounds lower upper)
  have whole := (reads_getWord 4 (value % 2 ^ 32).toNat).map fun word : Nat => int32 word
  rw [signed] at whole
  exact whole

theorem reads_getDouble (value : Double) : Reads getDouble value (bigEndian 8 value.bits.toNat) := by
  have bound : value.bits.toNat % 256 ^ 8 = value.bits.toNat := Nat.mod_eq_of_lt value.bits.toNat_lt
  have whole := (reads_getWord 8 value.bits.toNat).map fun word => Double.mk (UInt64.ofNat word)
  rw [bound, UInt64.ofNat_toNat] at whole
  exact whole

/-- The name that a decoder makes of the bytes of a name. -/
def nameRead (jndn : Jndn) (name : Name) : Name := jndn.nameOfUri (jndn.ofBytes (nameBytes jndn name))

theorem nameRead_eq (lossless : jndn.Lossless name) : nameRead jndn name = name := by
  rw [nameRead, nameBytes, lossless.charset, lossless.uri]

theorem reads_getName (size : (nameBytes jndn name).length < 2 ^ 31) :
    Reads (getName jndn) (nameRead jndn name) (intBytes (nameBytes jndn name).length ++ nameBytes jndn name) := by
  have named := (reads_getBytes (nameBytes jndn name)).map fun bytes => jndn.nameOfUri (jndn.ofBytes bytes)
  have counted : Reads getInt ((nameBytes jndn name).length : Int) _ := reads_getInt (by omega) (by omega)
  intro rest buffer next
  rw [List.append_assoc] at next
  obtain ⟨middle, first, next⟩ := counted next
  obtain ⟨after, second, next⟩ := named next
  have nonnegative : ¬((nameBytes jndn name).length : Int) < 0 := by omega
  refine ⟨after, ?_, next⟩
  simp only [getName, first, bind, Except.bind, nonnegative, if_false, Int.toNat_natCast, pure, Except.pure] at second ⊢
  exact second

/-- What is left of a blob once it was sent: an empty one comes back as absent. -/
def received (blob : Option Bytes) : Option Bytes := if blob.getD [] = [] then none else blob

theorem received_getD (blob : Option Bytes) : (received blob).getD [] = blob.getD [] := by
  unfold received
  split
  · rename_i empty
    rw [empty]
    rfl
  · rfl

theorem reads_getBlob (blob : Option Bytes) (size : blobSize blob < 2 ^ 31) :
    Reads getBlob (received blob) (intBytes (blobSize blob) ++ blob.getD []) := by
  have counted : Reads getInt (blobSize blob : Int) _ := reads_getInt (by omega) (by omega)
  intro rest buffer next
  rw [List.append_assoc] at next
  obtain ⟨middle, first, next⟩ := counted next
  by_cases empty : blob.getD [] = []
  · have none : blobSize blob = 0 := by rw [blobSize_eq, empty, List.length_nil]
    refine ⟨middle, ?_, by simpa [empty] using next⟩
    rw [none] at first
    simp [getBlob, first, bind, Except.bind, pure, Except.pure, received, empty]
  · obtain ⟨bytes, rfl⟩ : ∃ bytes, blob = some bytes := by
      cases blob with
      | none => exact (empty rfl).elim
      | some bytes => exact ⟨bytes, rfl⟩
    have positive : (0 : Int) < bytes.length := by
      have := List.length_pos_iff.mpr empty
      simp only [Option.getD_some] at this
      omega
    obtain ⟨after, second, next⟩ := reads_getBytes bytes next
    refine ⟨after, ?_, next⟩
    simp only [blobSize, Option.map_some, Option.getD_some] at first
    simp only [getBlob, first, bind, Except.bind, positive, if_true, Int.toNat_natCast, second, pure, Except.pure,
      received, if_neg empty]

theorem wrap_unread (raw : Bytes) : ∃ buffer, wrap raw = .ok buffer ∧ buffer.unread = raw := by
  obtain ⟨empty, allocated, filled⟩ := allocate_filled raw.length
  obtain ⟨full, put, filled⟩ := writes_put raw filled (by simp)
  refine ⟨full.flip, ?_, by simpa using filled.flip_unread⟩
  simp only [wrap, allocated, bind, Except.bind, put, pure, Except.pure]

/-! ## The three formats -/

section Layout

variable (jndn : Jndn)

def layout (data : Data) : Bytes :=
  intBytes (nameBytes jndn data.name).length ++ (nameBytes jndn data.name ++
    (bigEndian 8 data.freshnessPeriod.bits.toNat ++ (intBytes (blobSize data.content) ++ (data.content.getD [] ++
      (intBytes (blobSize data.signatureBits) ++ data.signatureBits.getD [])))))

def interestLayout (name : Name) (chunkSize : Int) : Bytes :=
  intBytes (nameBytes jndn name).length ++ (nameBytes jndn name ++ intBytes chunkSize)

def signatureLayout (data : Data) : Bytes :=
  intBytes (nameBytes jndn data.name).length ++ (nameBytes jndn data.name ++
    (intBytes (blobSize data.signatureBits) ++ data.signatureBits.getD []))

end Layout

/-- A message is the complete array of the buffer its encoder filled: nothing
overflowed and no byte was left unwritten. -/
def FillsExactly (encoder : Except Fault ByteBuffer) (message : Bytes) : Prop :=
  ∃ buffer, encoder = .ok buffer ∧ buffer.array = message ∧ buffer.position = buffer.array.length

theorem FillsExactly.message {encoder : Except Fault ByteBuffer} {message : Bytes}
    (filled : FillsExactly encoder message) :
    (encoder >>= fun buffer => pure buffer.array) = .ok message := by
  obtain ⟨buffer, written, array, _⟩ := filled
  rw [written, ← array]
  rfl

theorem serializeBuffer_exactly
    (fits : (nameBytes jndn data.name).length + blobSize data.content + blobSize data.signatureBits + 20 < 2 ^ 31) :
    FillsExactly (serializeBuffer jndn data) (layout jndn data) := by
  have writes := (writes_putInt (nameBytes jndn data.name).length).bind <|
    (writes_put (nameBytes jndn data.name)).bind <| (writes_putDouble data.freshnessPeriod).bind <|
    (writes_putInt (blobSize data.content)).bind <| (writes_putBlob data.content).bind <|
    (writes_putInt (blobSize data.signatureBits)).bind <| writes_putBlob data.signatureBits
  have size : int32 ((nameBytes jndn data.name).length + blobSize data.content + blobSize data.signatureBits +
      3 * 4 + 8) = (layout jndn data).length := by
    rw [int32_of_bounds (by omega) (by omega)]
    simp only [layout, List.length_append, intBytes_length, bigEndian_length, ← blobSize_eq]
    omega
  obtain ⟨buffer, written, array, full⟩ := writes.allocated
  rw [← layout, ← size] at written
  exact ⟨buffer, written, array, full⟩

theorem serializeInterestBuffer_exactly {chunkSize : Int} (fits : (nameBytes jndn name).length + 8 < 2 ^ 31) :
    FillsExactly (serializeInterestBuffer jndn name chunkSize) (interestLayout jndn name chunkSize) := by
  have writes := (writes_putInt (nameBytes jndn name).length).bind <|
    (writes_put (nameBytes jndn name)).bind <| writes_putInt chunkSize
  have size : int32 ((nameBytes jndn name).length + 2 * 4) = (interestLayout jndn name chunkSize).length := by
    rw [int32_of_bounds (by omega) (by omega)]
    simp only [interestLayout, List.length_append, intBytes_length]
    omega
  obtain ⟨buffer, written, array, full⟩ := writes.allocated
  rw [← interestLayout, ← size] at written
  exact ⟨buffer, written, array, full⟩

theorem serializeSignatureBuffer_exactly
    (fits : (nameBytes jndn data.name).length + blobSize data.signatureBits + 8 < 2 ^ 31) :
    FillsExactly (serializeSignatureBuffer jndn data) (signatureLayout jndn data) := by
  have writes := (writes_putInt (nameBytes jndn data.name).length).bind <|
    (writes_put (nameBytes jndn data.name)).bind <| (writes_putInt (blobSize data.signatureBits)).bind <|
    writes_putBlob data.signatureBits
  have size : int32 ((nameBytes jndn data.name).length + blobSize data.signatureBits + 2 * 4) =
      (signatureLayout jndn data).length := by
    rw [int32_of_bounds (by omega) (by omega)]
    simp only [signatureLayout, List.length_append, intBytes_length, ← blobSize_eq]
    omega
  obtain ⟨buffer, written, array, full⟩ := writes.allocated
  rw [← signatureLayout, ← size] at written
  exact ⟨buffer, written, array, full⟩

theorem serializeInterest_layout {chunkSize : Int} (fits : (nameBytes jndn name).length + 8 < 2 ^ 31) :
    serializeInterest jndn name chunkSize = .ok (interestLayout jndn name chunkSize) :=
  (serializeInterestBuffer_exactly fits).message

theorem serializeSignature_layout
    (fits : (nameBytes jndn data.name).length + blobSize data.signatureBits + 8 < 2 ^ 31) :
    serializeSignature jndn data = .ok (signatureLayout jndn data) :=
  (serializeSignatureBuffer_exactly fits).message

theorem serializeInterest_succeeds_iff {chunkSize : Int} :
    Succeeds (serializeInterest jndn name chunkSize) ↔ (nameBytes jndn name).length + 8 < 2 ^ 31 := by
  refine ⟨fun written => ?_, fun fits => ⟨_, serializeInterest_layout fits⟩⟩
  obtain ⟨_, written⟩ := written
  simp only [serializeInterest, bind, bind_eq_ok] at written
  obtain ⟨buffer, filled, _⟩ := written
  have advances := (advances_putInt (nameBytes jndn name).length).bind <|
    (advances_put (nameBytes jndn name)).bind <| advances_putInt chunkSize
  have room := advances.room filled
  have bound := int32_lt ((nameBytes jndn name).length + 2 * 4)
  omega

theorem serializeInterest_eq_ok {chunkSize : Int} {message : Bytes}
    (written : serializeInterest jndn name chunkSize = .ok message) :
    (nameBytes jndn name).length + 8 < 2 ^ 31 ∧ message = interestLayout jndn name chunkSize := by
  have fits := serializeInterest_succeeds_iff.mp ⟨_, written⟩
  exact ⟨fits, Except.ok.inj (written.symm.trans (serializeInterest_layout fits))⟩

theorem serializeSignature_succeeds_iff :
    Succeeds (serializeSignature jndn data) ↔
      (nameBytes jndn data.name).length + blobSize data.signatureBits + 8 < 2 ^ 31 := by
  refine ⟨fun written => ?_, fun fits => ⟨_, serializeSignature_layout fits⟩⟩
  obtain ⟨_, written⟩ := written
  simp only [serializeSignature, bind, bind_eq_ok] at written
  obtain ⟨buffer, filled, _⟩ := written
  have advances := (advances_putInt (nameBytes jndn data.name).length).bind <|
    (advances_put (nameBytes jndn data.name)).bind <|
    (advances_putInt (blobSize data.signatureBits)).bind <| advances_putBlob data.signatureBits
  -- An `int` holds fewer bytes than a size that has wrapped around.
  have room := advances.room filled
  have bound := int32_lt ((nameBytes jndn data.name).length + blobSize data.signatureBits + 2 * 4)
  omega

theorem serializeSignature_eq_ok {message : Bytes} (written : serializeSignature jndn data = .ok message) :
    (nameBytes jndn data.name).length + blobSize data.signatureBits + 8 < 2 ^ 31 ∧
      message = signatureLayout jndn data := by
  have fits := serializeSignature_succeeds_iff.mp ⟨_, written⟩
  exact ⟨fits, Except.ok.inj (written.symm.trans (serializeSignature_layout fits))⟩

theorem deserialize_layout (lossless : jndn.Lossless data.name)
    (fits : (nameBytes jndn data.name).length + blobSize data.content + blobSize data.signatureBits + 20 < 2 ^ 31) :
    deserialize jndn (layout jndn data) object = .ok { object with
      name := data.name
      freshnessPeriod := data.freshnessPeriod
      content := (received data.content).or object.content
      signatureBits := (received data.signatureBits).or object.signatureBits } := by
  obtain ⟨start, wrapped, next⟩ := wrap_unread (layout jndn data)
  simp only [layout, ← List.append_assoc (intBytes _)] at next
  obtain ⟨_, name, next⟩ := reads_getName (by omega) next
  obtain ⟨_, freshness, next⟩ := reads_getDouble data.freshnessPeriod next
  obtain ⟨_, content, next⟩ := reads_getBlob data.content (by omega) next
  rw [← List.append_nil (_ ++ _)] at next
  obtain ⟨_, signature, _⟩ := reads_getBlob data.signatureBits (by omega) next
  rw [nameRead_eq lossless] at name
  simp only [deserialize, wrapped, name, freshness, content, signature, bind, Except.bind, pure, Except.pure]

theorem deserializeInterest_layout {chunkSize : Int} (lossless : jndn.Lossless name)
    (fits : (nameBytes jndn name).length + 8 < 2 ^ 31) (lower : -2 ^ 31 ≤ chunkSize) (upper : chunkSize < 2 ^ 31) :
    deserializeInterest jndn (interestLayout jndn name chunkSize) object = .ok (chunkSize, { object with name }) := by
  obtain ⟨start, wrapped, next⟩ := wrap_unread (interestLayout jndn name chunkSize)
  simp only [interestLayout, ← List.append_assoc (intBytes _)] at next
  obtain ⟨_, named, next⟩ := reads_getName (by omega) next
  rw [← List.append_nil (intBytes _)] at next
  obtain ⟨_, chunk, _⟩ := reads_getInt lower upper next
  rw [nameRead_eq lossless] at named
  simp only [deserializeInterest, wrapped, named, chunk, bind, Except.bind, pure, Except.pure]

theorem deserializeSignature_layout
    (fits : (nameBytes jndn data.name).length + blobSize data.signatureBits + 8 < 2 ^ 31) (object : Data) :
    deserializeSignature jndn (signatureLayout jndn data) object = .ok { object with
      name := nameRead jndn data.name
      signatureBits := (received data.signatureBits).or object.signatureBits } := by
  obtain ⟨start, wrapped, next⟩ := wrap_unread (signatureLayout jndn data)
  simp only [signatureLayout, ← List.append_assoc (intBytes _)] at next
  obtain ⟨_, named, next⟩ := reads_getName (by omega) next
  rw [← List.append_nil (_ ++ _)] at next
  obtain ⟨_, signature, _⟩ := reads_getBlob data.signatureBits (by omega) next
  simp only [deserializeSignature, wrapped, named, signature, bind, Except.bind, pure, Except.pure]

/-- Each of the three formats fits its array exactly and is read back by its
decoder, with absent and empty blobs identified. -/
theorem codecs_round_trip (lossless : jndn.Lossless data.name) :
    ((nameBytes jndn data.name).length + blobSize data.content + blobSize data.signatureBits + 20 < 2 ^ 31 →
      ∃ message decoded, serialize jndn data = .ok message ∧ FillsExactly (serializeBuffer jndn data) message ∧
        deserialize jndn message .fresh = .ok decoded ∧ decoded.name = data.name ∧
        decoded.freshnessPeriod = data.freshnessPeriod ∧ decoded.content.getD [] = data.content.getD [] ∧
        decoded.signatureBits.getD [] = data.signatureBits.getD []) ∧
    ((nameBytes jndn data.name).length + 8 < 2 ^ 31 → ∀ chunkSize, -2 ^ 31 ≤ chunkSize → chunkSize < 2 ^ 31 →
      ∃ message decoded, serializeInterest jndn data.name chunkSize = .ok message ∧
        FillsExactly (serializeInterestBuffer jndn data.name chunkSize) message ∧
        deserializeInterest jndn message .fresh = .ok (chunkSize, decoded) ∧ decoded.name = data.name) ∧
    ((nameBytes jndn data.name).length + blobSize data.signatureBits + 8 < 2 ^ 31 →
      ∃ message decoded, serializeSignature jndn data = .ok message ∧
        FillsExactly (serializeSignatureBuffer jndn data) message ∧
        deserializeSignature jndn message .fresh = .ok decoded ∧ decoded.name = data.name ∧
        decoded.signatureBits.getD [] = data.signatureBits.getD []) := by
  refine ⟨fun fits => ?_, fun fits chunkSize lower upper => ?_, fun fits => ?_⟩
  · have filled := @serializeBuffer_exactly jndn data fits
    refine ⟨layout jndn data, _, filled.message, filled, deserialize_layout lossless fits, rfl, rfl, ?_, ?_⟩
    all_goals simp only [Data.fresh, Option.or_none, received_getD]
  · exact ⟨interestLayout jndn data.name chunkSize, _, serializeInterest_layout fits,
      serializeInterestBuffer_exactly fits, deserializeInterest_layout lossless fits lower upper, rfl⟩
  · refine ⟨signatureLayout jndn data, _, serializeSignature_layout fits, serializeSignatureBuffer_exactly fits,
      deserializeSignature_layout fits .fresh, nameRead_eq lossless, ?_⟩
    simp only [Data.fresh, Option.or_none, received_getD]

def sampleName : Name := [.generic (ascii "debit"), .generic (ascii "a")]

theorem lossless_sample : Jndn.reference.Lossless sampleName := ⟨by decide, by decide⟩

/-- A packet with a content, a freshness period and a signature. -/
def samplePacket : Data :=
  { Data.fresh with
    name := sampleName
    freshnessPeriod := Double.ofInt 4000
    content := some [1, 2, 3]
    signatureBits := some [9, 8] }

theorem codecs_round_trip_sample :
    (∃ message decoded, serialize .reference samplePacket = .ok message ∧
      FillsExactly (serializeBuffer .reference samplePacket) message ∧
      deserialize .reference message .fresh = .ok decoded ∧ decoded.name = sampleName ∧
      decoded.freshnessPeriod = Double.ofInt 4000 ∧ decoded.content.getD [] = [1, 2, 3] ∧
      decoded.signatureBits.getD [] = [9, 8]) ∧
    (∃ message decoded, serializeInterest .reference sampleName 8192 = .ok message ∧
      FillsExactly (serializeInterestBuffer .reference sampleName 8192) message ∧
      deserializeInterest .reference message .fresh = .ok (8192, decoded) ∧ decoded.name = sampleName) ∧
    ∃ message decoded, serializeSignature .reference samplePacket = .ok message ∧
      FillsExactly (serializeSignatureBuffer .reference samplePacket) message ∧
      deserializeSignature .reference message .fresh = .ok decoded ∧ decoded.name = sampleName ∧
      decoded.signatureBits.getD [] = [9, 8] := by
  have lossless : Jndn.reference.Lossless samplePacket.name := lossless_sample
  obtain ⟨packet, interest, signature⟩ := codecs_round_trip lossless
  exact ⟨packet (by decide), interest (by decide) 8192 (by decide) (by decide), signature (by decide)⟩

end Ndnperf.RabbitMQ.SerializableData

import Ndnperf.RabbitMQ.Decoding
import Ndnperf.RabbitMQ.SigningProperties

namespace Ndnperf.RabbitMQ

open Ndn Java Library.Word Library.Outcome SerializableData

/-! What one object keeps of the messages it was called on before. -/

variable {jndn : Jndn} {raw message : Bytes} {object next model : Data} {replies : List Bytes} {blob : Option Bytes}
  {offset : Nat}

/-- Whatever object the decoder is called on, the fields are the same afterwards. -/
def Forgets {Fields : Type} (decoder : Data → Except Library.Wire.Fault Data) (fields : Data → Fields) : Prop :=
  ∀ ⦃first second firstAfter secondAfter⦄, decoder first = .ok firstAfter → decoder second = .ok secondAfter →
    fields firstAfter = fields secondAfter

def dataFields (data : Data) : Name × Double × Option Bytes × Option Bytes :=
  (data.name, data.freshnessPeriod, data.content, data.signatureBits)

def replyFields (data : Data) : Name × Option Bytes := (data.name, data.signatureBits)

theorem blobAt_isSome_iff : (blobAt raw offset).isSome ↔ 0 < intAt raw offset := by
  unfold blobAt
  split <;> simp_all

/-- A blob in the message replaces the earlier one; none leaves it, whatever it was. -/
theorem blob_forgets_iff : (∀ first second : Option Bytes, blob.or first = blob.or second) ↔ blob.isSome := by
  cases blob with
  | none =>
      refine iff_of_false (fun same => ?_) (by simp)
      exact absurd (same none (some [])) (by simp)
  | some bytes => simp

theorem deserialize_forgets_iff (accepted : Succeeds (deserialize jndn raw object)) :
    Forgets (deserialize jndn raw) dataFields ↔
      0 < intAt raw (contentOffset raw) ∧ 0 < intAt raw (signatureOffset raw) := by
  have fits := deserialize_succeeds_iff.mp accepted
  rw [← blobAt_isSome_iff, ← blobAt_isSome_iff, ← blob_forgets_iff, ← blob_forgets_iff]
  constructor
  · intro forgets
    have same (first second : Option Bytes) := forgets
      (deserialize_eq fits { Data.fresh with content := first, signatureBits := first })
      (deserialize_eq fits { Data.fresh with content := second, signatureBits := second })
    simp only [dataFields, Prod.mk.injEq, true_and] at same
    exact ⟨fun first second => (same first second).1, fun first second => (same first second).2⟩
  · intro forgets first second firstAfter secondAfter firstRead secondRead
    rw [deserialize_eq fits] at firstRead secondRead
    cases firstRead
    cases secondRead
    simp only [dataFields, forgets.1 first.content second.content,
      forgets.2 first.signatureBits second.signatureBits]

theorem deserializeSignature_forgets_iff (accepted : Succeeds (deserializeSignature jndn raw object)) :
    Forgets (deserializeSignature jndn raw) replyFields ↔ 0 < intAt raw (nameEnd raw) := by
  have fits := deserializeSignature_succeeds_iff.mp accepted
  rw [← blobAt_isSome_iff, ← blob_forgets_iff]
  constructor
  · intro forgets first second
    have same := forgets (deserializeSignature_eq fits { Data.fresh with signatureBits := first })
      (deserializeSignature_eq fits { Data.fresh with signatureBits := second })
    simp only [replyFields, Prod.mk.injEq, true_and] at same
    exact same
  · intro forgets first second firstAfter secondAfter firstRead secondRead
    rw [deserializeSignature_eq fits] at firstRead secondRead
    cases firstRead
    cases secondRead
    simp only [replyFields, forgets first.signatureBits second.signatureBits]

/-! ## The loop of the server -/

theorem receiveAll_append :
    RabbitMQServer.receiveAll jndn object (replies ++ [message]) = .ok next ↔
      ∃ middle, RabbitMQServer.receiveAll jndn object replies = .ok middle ∧
        deserializeSignature jndn message middle = .ok next := by
  induction replies generalizing object with
  | nil =>
      simp only [List.nil_append, RabbitMQServer.receiveAll, RabbitMQServer.receive, bind, bind_eq_ok, decoding_eq_ok,
        Except.ok.injEq, exists_eq_left', exists_eq_right]
  | cons first rest ih =>
      simp only [List.cons_append, RabbitMQServer.receiveAll, bind, bind_eq_ok, ih]
      constructor
      · intro held
        obtain ⟨after, started, middle, others, last⟩ := held
        exact ⟨middle, ⟨after, started, others⟩, last⟩
      · intro held
        obtain ⟨middle, ⟨after, started, others⟩, last⟩ := held
        exact ⟨after, started, middle, others, last⟩

/-- After a reply, the name and the signature do not depend on the replies before it. -/
def RunForgets (jndn : Jndn) (model : Data) (message : Bytes) : Prop :=
  ∀ ⦃earlier others after afterOthers⦄, RabbitMQServer.receiveAll jndn model (earlier ++ [message]) = .ok after →
    RabbitMQServer.receiveAll jndn model (others ++ [message]) = .ok afterOthers →
      replyFields after = replyFields afterOthers

/-- A reply with an empty name and one byte of signature. -/
def shortReply (byte : UInt8) : Bytes := [0, 0, 0, 0, 0, 0, 0, 1, byte]

theorem shortReply_received (byte : UInt8) :
    ∃ next, RabbitMQServer.receiveAll jndn model [shortReply byte] = .ok next ∧ next.signatureBits = some [byte] := by
  have noName : nameSize (shortReply byte) = 0 := by
    change int32 (Library.Wire.ofBigEndian [0, 0, 0, 0]) = 0
    decide
  have start : nameEnd (shortReply byte) = 4 := by rw [nameEnd, noName]; rfl
  have oneByte : intAt (shortReply byte) 4 = 1 := by
    change int32 (Library.Wire.ofBigEndian [0, 0, 0, 1]) = 1
    decide
  have size : (shortReply byte).length = 9 := rfl
  have fits : SignatureFits (shortReply byte) := by
    simp only [SignatureFits, NameFits, blobEnd, start, noName, oneByte, size]
    decide
  have signature : blobAt (shortReply byte) 4 = some [byte] := by
    simp only [blobAt, oneByte]
    rfl
  have read := @deserializeSignature_eq jndn (shortReply byte) fits model
  refine ⟨_, (@receiveAll_append jndn (shortReply byte) model _ []).mpr ⟨model, rfl, read⟩, ?_⟩
  simp only [start, signature, Option.some_or]

theorem runForgets_iff (accepted : Succeeds (deserializeSignature jndn raw object)) (model : Data) :
    RunForgets jndn model raw ↔ 0 < intAt raw (nameEnd raw) := by
  have fits := deserializeSignature_succeeds_iff.mp accepted
  constructor
  · intro forgets
    obtain ⟨first, firstReceived, firstSigned⟩ := @shortReply_received jndn model 1
    obtain ⟨second, secondReceived, secondSigned⟩ := @shortReply_received jndn model 2
    have same := forgets (receiveAll_append.mpr ⟨first, firstReceived, deserializeSignature_eq fits first⟩)
      (receiveAll_append.mpr ⟨second, secondReceived, deserializeSignature_eq fits second⟩)
    simp only [replyFields, firstSigned, secondSigned, Prod.mk.injEq, true_and] at same
    apply blobAt_isSome_iff.mp
    cases found : blobAt raw (nameEnd raw) with
    | none => simp [found] at same
    | some bytes => rfl
  · intro positive earlier others after afterOthers received otherReceived
    obtain ⟨_, _, read⟩ := receiveAll_append.mp received
    obtain ⟨_, _, otherRead⟩ := receiveAll_append.mp otherReceived
    exact (deserializeSignature_forgets_iff accepted).mpr positive read otherRead

/-- A message that is decoded at all replaces what was there before exactly
where each of its blobs has a positive length; in the loop of the server as well. -/
theorem decoding_forgets_iff (jndn : Jndn) (raw : Bytes) (object : Data) :
    (Succeeds (deserialize jndn raw object) →
      (Forgets (deserialize jndn raw) dataFields ↔
        0 < intAt raw (contentOffset raw) ∧ 0 < intAt raw (signatureOffset raw))) ∧
    (Succeeds (deserializeSignature jndn raw object) →
      (Forgets (deserializeSignature jndn raw) replyFields ↔ 0 < intAt raw (nameEnd raw)) ∧
      ∀ model, RunForgets jndn model raw ↔ 0 < intAt raw (nameEnd raw)) :=
  ⟨fun accepted => deserialize_forgets_iff accepted,
    fun accepted => ⟨deserializeSignature_forgets_iff accepted, runForgets_iff accepted⟩⟩

/-- What `serialize_signature` makes of an object that was never signed. -/
def unsignedReply : Bytes := signatureLayout .reference { Data.fresh with name := sampleName }

def signedReply : Bytes :=
  signatureLayout .reference { Data.fresh with name := sampleName.dropLast, signatureBits := some [1] }

/-- The signature for `/debit` ends up under `/debit/a`. -/
theorem signature_carried_over :
    serializeSignature .reference { Data.fresh with name := sampleName } = .ok unsignedReply ∧
      RabbitMQServer.receiveAll .reference sampleServer.dataModel [signedReply, unsignedReply] =
        .ok { sampleServer.dataModel with name := sampleName, signatureBits := some [1] } ∧
      RabbitMQServer.receiveAll .reference sampleServer.dataModel [unsignedReply] =
        .ok { sampleServer.dataModel with name := sampleName, signatureBits := none } ∧
      ¬RunForgets .reference sampleServer.dataModel unsignedReply ∧
      ¬Forgets (deserializeSignature .reference unsignedReply) replyFields := by
  have carried : RabbitMQServer.receiveAll .reference sampleServer.dataModel [signedReply, unsignedReply] =
      .ok { sampleServer.dataModel with name := sampleName, signatureBits := some [1] } := rfl
  have alone : RabbitMQServer.receiveAll .reference sampleServer.dataModel [unsignedReply] =
      .ok { sampleServer.dataModel with name := sampleName, signatureBits := none } := rfl
  refine ⟨serializeSignature_layout (by decide), carried, alone, fun forgets => ?_, fun forgets => ?_⟩
  · have same : (some [1] : Option Bytes) = none := congrArg Prod.snd (@forgets [signedReply] [] _ _ carried alone)
    cases same
  · have accepted : Succeeds (deserializeSignature .reference unsignedReply .fresh) :=
      deserializeSignature_succeeds_iff.mpr (by decide)
    exact absurd ((deserializeSignature_forgets_iff accepted).mp forgets) (by decide)

theorem decoding_forgets_sample :
    (Forgets (deserializeSignature .reference signedReply) replyFields ↔ 0 < intAt signedReply (nameEnd signedReply)) ∧
      ∀ model, RunForgets .reference model signedReply ↔ 0 < intAt signedReply (nameEnd signedReply) :=
  (decoding_forgets_iff .reference signedReply .fresh).2 (deserializeSignature_succeeds_iff.mpr (by decide))

end Ndnperf.RabbitMQ

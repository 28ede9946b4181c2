import Ndnperf.RabbitMQ.RoundTrip

namespace Ndnperf.RabbitMQ.SerializableData

open Ndn Java Library.Word Library.Wire Library.Wire.ByteBuffer Library.Outcome

/-! What the decoders make of an arbitrary message: where its fields are, and
which messages they accept. -/

variable {jndn : Jndn} {data object decoded : Data} {raw message : Bytes} {offset : Nat} {chunkSize : Int}

/-! ## The fields of a message -/

/-- The `int` at an offset of a message that has one there. -/
def intAt (raw : Bytes) (offset : Nat) : Int := int32 (ofBigEndian ((raw.drop offset).take 4))

def doubleAt (raw : Bytes) (offset : Nat) : Double := ⟨UInt64.ofNat (ofBigEndian ((raw.drop offset).take 8))⟩

def nameSize (raw : Bytes) : Int := intAt raw 0

def nameEnd (raw : Bytes) : Nat := 4 + (nameSize raw).toNat

/-- The declared length is not negative, and that many bytes follow. -/
def NameFits (raw : Bytes) : Prop := 0 ≤ nameSize raw ∧ nameEnd raw ≤ raw.length

instance (raw : Bytes) : Decidable (NameFits raw) := inferInstanceAs (Decidable (_ ∧ _))

def nameOf (jndn : Jndn) (raw : Bytes) : Name :=
  jndn.nameOfUri (jndn.ofBytes ((raw.drop 4).take (nameSize raw).toNat))

/-- Where the bytes end whose number is at the offset; there are none for a number that is not positive. -/
def blobEnd (raw : Bytes) (offset : Nat) : Nat := offset + 4 + (intAt raw offset).toNat

def blobAt (raw : Bytes) (offset : Nat) : Option Bytes :=
  if 0 < intAt raw offset then some ((raw.drop (offset + 4)).take (intAt raw offset).toNat) else none

theorem readsAt_getInt : ReadsAt raw offset getInt (offset + 4 ≤ raw.length) (intAt raw offset) (offset + 4) :=
  (readsAt_getWord 4).map fun word : Nat => int32 word

theorem readsAt_getDouble :
    ReadsAt raw offset getDouble (offset + 8 ≤ raw.length) (doubleAt raw offset) (offset + 8) :=
  (readsAt_getWord 8).map fun word => Double.mk (UInt64.ofNat word)

/-! The rest of `getName` and of `getBlob`, once the length is read. -/

def nameAfter (jndn : Jndn) (size : Int) (buffer : ByteBuffer) : Except Fault (Name × ByteBuffer) := do
  if size < 0 then throw .negativeSize
  let (bytes, rest) ← buffer.getBytes size.toNat
  return (jndn.nameOfUri (jndn.ofBytes bytes), rest)

def blobAfter (size : Int) (buffer : ByteBuffer) : Except Fault (Option Bytes × ByteBuffer) := do
  if 0 < size then
    let (bytes, rest) ← buffer.getBytes size.toNat
    return (some bytes, rest)
  else return (none, buffer)

theorem readsAt_nameAfter (jndn : Jndn) :
    ReadsAt raw 4 (nameAfter jndn (nameSize raw)) (NameFits raw) (nameOf jndn raw) (nameEnd raw) := by
  unfold nameAfter
  by_cases negative : nameSize raw < 0
  · intro buffer stands
    simp only [negative, if_true]
    refine ⟨fun fits => absurd fits.1 (Int.not_le.mpr negative), fun read => ?_⟩
    obtain ⟨_, read⟩ := read
    cases read
  · have bytes : ReadsAt raw 4 (getBytes (nameSize raw).toNat) _ _ _ := readsAt_getBytes _
    have nonnegative : 0 ≤ nameSize raw := Int.not_lt.mp negative
    simp only [negative, if_false]
    refine (bytes.map fun bytes => jndn.nameOfUri (jndn.ofBytes bytes)).congr ?_ (fun _ => rfl) rfl
    simp only [NameFits, nonnegative, true_and]
    rfl

theorem readsAt_getName (jndn : Jndn) :
    ReadsAt raw 0 (getName jndn) (NameFits raw) (nameOf jndn raw) (nameEnd raw) := by
  have whole : ReadsAt raw 0 (getName jndn) _ _ _ := readsAt_getInt.bind (nameAfter jndn) (readsAt_nameAfter jndn)
  refine whole.congr (and_iff_right_of_imp fun fits => ?_) (fun _ => rfl) rfl
  have ends := fits.2
  simp only [nameEnd] at ends
  omega

theorem readsAt_blobAfter :
    ReadsAt raw (offset + 4) (blobAfter (intAt raw offset)) (blobEnd raw offset ≤ raw.length) (blobAt raw offset)
      (blobEnd raw offset) := by
  unfold blobAfter
  by_cases positive : 0 < intAt raw offset
  · have bytes : ReadsAt raw (offset + 4) (getBytes (intAt raw offset).toNat) _ _ _ := readsAt_getBytes _
    simp only [positive, if_true, blobAt]
    exact bytes.map some
  · have nothing : (intAt raw offset).toNat = 0 := by omega
    simp only [positive, if_false, blobAt, blobEnd, nothing, Nat.add_zero]
    exact fun buffer stands => ⟨fun _ => ⟨buffer, rfl, stands⟩, fun _ => stands.within⟩

theorem readsAt_getBlob :
    ReadsAt raw offset getBlob (blobEnd raw offset ≤ raw.length) (blobAt raw offset) (blobEnd raw offset) := by
  have whole : ReadsAt raw offset getBlob _ _ _ := readsAt_getInt.bind blobAfter readsAt_blobAfter
  refine whole.congr (and_iff_right_of_imp fun fits => ?_) (fun _ => rfl) rfl
  simp only [blobEnd] at fits
  omega

theorem wrap_stands (raw : Bytes) : ∃ buffer, wrap raw = .ok buffer ∧ Stands raw 0 buffer := by
  obtain ⟨buffer, wrapped, unread⟩ := wrap_unread raw
  exact ⟨buffer, wrapped, by rw [unread, List.drop_zero], Nat.zero_le _⟩

/-! ## The decoders -/

/-- `deserialize_interest` finds the name and one more number. -/
def InterestFits (raw : Bytes) : Prop := NameFits raw ∧ nameEnd raw + 4 ≤ raw.length

def SignatureFits (raw : Bytes) : Prop := NameFits raw ∧ blobEnd raw (nameEnd raw) ≤ raw.length

instance (raw : Bytes) : Decidable (InterestFits raw) := inferInstanceAs (Decidable (_ ∧ _))

instance (raw : Bytes) : Decidable (SignatureFits raw) := inferInstanceAs (Decidable (_ ∧ _))

/-- Where `deserialize` expects the length of the content, and that of the signature. -/
def contentOffset (raw : Bytes) : Nat := nameEnd raw + 8

def signatureOffset (raw : Bytes) : Nat := blobEnd raw (contentOffset raw)

def DataFits (raw : Bytes) : Prop :=
  NameFits raw ∧ contentOffset raw ≤ raw.length ∧ signatureOffset raw ≤ raw.length ∧
    blobEnd raw (signatureOffset raw) ≤ raw.length

instance (raw : Bytes) : Decidable (DataFits raw) := inferInstanceAs (Decidable (_ ∧ _))

theorem deserializeInterest_eq (fits : InterestFits raw) (object : Data) :
    deserializeInterest jndn raw object = .ok (intAt raw (nameEnd raw), { object with name := nameOf jndn raw }) := by
  obtain ⟨_, wrapped, stands⟩ := wrap_stands raw
  obtain ⟨_, name, stands⟩ := (readsAt_getName jndn stands).1 fits.1
  obtain ⟨_, chunk, _⟩ := (readsAt_getInt stands).1 fits.2
  simp only [deserializeInterest, wrapped, name, chunk, bind, Except.bind, pure, Except.pure]

theorem deserializeInterest_succeeds_iff :
    Succeeds (deserializeInterest jndn raw object) ↔ InterestFits raw := by
  refine ⟨fun read => ?_, fun fits => ⟨_, deserializeInterest_eq fits object⟩⟩
  obtain ⟨_, wrapped, stands⟩ := wrap_stands raw
  obtain ⟨result, read⟩ := read
  simp only [deserializeInterest, wrapped, bind, Except.bind] at read
  obtain ⟨⟨_, _⟩, named, read⟩ := bind_eq_ok.mp read
  obtain ⟨⟨_, _⟩, chunk, _⟩ := bind_eq_ok.mp read
  obtain ⟨name, _, stands⟩ := (readsAt_getName jndn).inv stands named
  exact ⟨name, (readsAt_getInt.inv stands chunk).1⟩

theorem deserializeSignature_eq (fits : SignatureFits raw) (object : Data) :
    deserializeSignature jndn raw object = .ok { object with
      name := nameOf jndn raw
      signatureBits := (blobAt raw (nameEnd raw)).or object.signatureBits } := by
  obtain ⟨_, wrapped, stands⟩ := wrap_stands raw
  obtain ⟨_, name, stands⟩ := (readsAt_getName jndn stands).1 fits.1
  obtain ⟨_, signature, _⟩ := (readsAt_getBlob stands).1 fits.2
  simp only [deserializeSignature, wrapped, name, signature, bind, Except.bind, pure, Except.pure]

theorem deserializeSignature_succeeds_iff :
    Succeeds (deserializeSignature jndn raw object) ↔ SignatureFits raw := by
  refine ⟨fun read => ?_, fun fits => ⟨_, deserializeSignature_eq fits object⟩⟩
  obtain ⟨_, wrapped, stands⟩ := wrap_stands raw
  obtain ⟨result, read⟩ := read
  simp only [deserializeSignature, wrapped, bind, Except.bind] at read
  obtain ⟨⟨_, _⟩, named, read⟩ := bind_eq_ok.mp read
  obtain ⟨⟨_, _⟩, signature, _⟩ := bind_eq_ok.mp read
  obtain ⟨name, _, stands⟩ := (readsAt_getName jndn).inv stands named
  exact ⟨name, (readsAt_getBlob.inv stands signature).1⟩

theorem deserialize_eq (fits : DataFits raw) (object : Data) :
    deserialize jndn raw object = .ok { object with
      name := nameOf jndn raw
      freshnessPeriod := doubleAt raw (nameEnd raw)
      content := (blobAt raw (contentOffset raw)).or object.content
      signatureBits := (blobAt raw (signatureOffset raw)).or object.signatureBits } := by
  obtain ⟨named, fresh, contents, signed⟩ := fits
  obtain ⟨_, wrapped, stands⟩ := wrap_stands raw
  obtain ⟨_, name, stands⟩ := (readsAt_getName jndn stands).1 named
  obtain ⟨_, freshness, stands⟩ := (readsAt_getDouble stands).1 fresh
  obtain ⟨_, content, stands⟩ := (readsAt_getBlob stands).1 contents
  obtain ⟨_, signature, _⟩ := (readsAt_getBlob stands).1 signed
  simp only [deserialize, wrapped, name, freshness, content, signature, bind, Except.bind, pure, Except.pure]
  rfl

theorem deserialize_succeeds_iff : Succeeds (deserialize jndn raw object) ↔ DataFits raw := by
  refine ⟨fun read => ?_, fun fits => ⟨_, deserialize_eq fits object⟩⟩
  obtain ⟨_, wrapped, stands⟩ := wrap_stands raw
  obtain ⟨result, read⟩ := read
  simp only [deserialize, wrapped, bind, Except.bind] at read
  obtain ⟨⟨_, _⟩, name, read⟩ := bind_eq_ok.mp read
  obtain ⟨⟨_, _⟩, freshness, read⟩ := bind_eq_ok.mp read
  obtain ⟨⟨_, _⟩, content, read⟩ := bind_eq_ok.mp read
  obtain ⟨⟨_, _⟩, signature, _⟩ := bind_eq_ok.mp read
  obtain ⟨named, _, stands⟩ := (readsAt_getName jndn).inv stands name
  obtain ⟨fresh, _, stands⟩ := readsAt_getDouble.inv stands freshness
  obtain ⟨contents, _, stands⟩ := readsAt_getBlob.inv stands content
  exact ⟨named, fresh, contents, (readsAt_getBlob.inv stands signature).1⟩

end Ndnperf.RabbitMQ.SerializableData

import Ndnperf.RabbitMQ.Decoding
import Ndnperf.RabbitMQ.SigningProperties

namespace Ndnperf.RabbitMQ

open Ndn Java Library.Outcome SerializableData

/-! The `try` blocks of the two loops, and what can leave them. -/

/-- The exceptions that the statements of the loops declare, and the unchecked ones. -/
inductive Thrown where
  | io
  | security
  | interrupted
  | encoding
  | unchecked (fault : Fault)
deriving DecidableEq, Repr

def unchecked (program : Except Fault α) : Except Thrown α := program.mapError .unchecked

/-- A call that returns nothing the loop needs, and throws where it is the one that fails. -/
def call {Call : Type} [DecidableEq Call] (failing : Option Call) (here : Call) (thrown : Thrown) :
    Except Thrown Unit :=
  if failing = some here then .error thrown else .ok ()

namespace RabbitMQWorker

inductive Call where
  | nextDelivery
  | basicAck
  | sign
  | basicPublish
deriving DecidableEq, Repr

/-- `catch (IOException | SecurityException | InterruptedException e)` -/
def catches : Thrown → Bool
  | .io => true
  | .security => true
  | .interrupted => true
  | .encoding => false
  | .unchecked _ => false

/-- One iteration of `run` on the message delivered, in which at most one call fails. -/
def iteration (jndn : Jndn) (keyChain : KeyChain) (failing : Option Call) (file : Text) (certificateName : Name)
    (message : Bytes) (data : Data) : Except Thrown (Data × Bytes) := do
  call failing .nextDelivery .interrupted
  let (chunk, named) ← unchecked (decoding (deserializeInterest jndn message data))
  call failing .basicAck .io
  let content ← unchecked (substring file chunk)
  call failing .sign .security
  let signed := keyChain.sign { named with content := some (jndn.blob content) } certificateName
  let reply ← unchecked (decoding (serializeSignature jndn signed))
  call failing .basicPublish .io
  return (signed, reply)

end RabbitMQWorker

namespace RabbitMQServer

/-- The calls of the loop; those made for every delivery carry its number in the iteration. -/
inductive Call where
  | queueDeclare
  | nextDelivery (index : Nat)
  | putData (index : Nat)
  | basicAck (index : Nat)
  | processEvents (thrown : Bool)
  | sleep
deriving DecidableEq, Repr

/-- `catch (InterruptedException | IOException | EncodingException e)` -/
def catches : Thrown → Bool
  | .io => true
  | .security => false
  | .interrupted => true
  | .encoding => true
  | .unchecked _ => false

variable (jndn : Jndn) (failing : Option Call)

/-- `while (count > 0)`, on the messages delivered. -/
def deliveries (index : Nat) (data : Data) : List Bytes → Except Thrown Data
  | [] => .ok data
  | message :: rest => do
      call failing (.nextDelivery index) .interrupted
      let next ← unchecked (receive jndn message data)
      call failing (.putData index) .io
      call failing (.basicAck index) .io
      deliveries (index + 1) next rest

/-- One iteration of `run` with a message count of `messages.length`. -/
def iteration (messages : List Bytes) (data : Data) : Except Thrown Data := do
  call failing .queueDeclare .io
  let next ← deliveries jndn failing 0 data messages
  call failing (.processEvents false) .io
  call failing (.processEvents true) .encoding
  call failing .sleep .interrupted
  return next

/-- The messages that get as far as the decoder. -/
def decoded (index : Nat) : List Bytes → List Bytes
  | [] => []
  | message :: rest =>
      if failing = some (.nextDelivery index) then []
      else message ::
        if failing = some (.putData index) ∨ failing = some (.basicAck index) then [] else decoded (index + 1) rest

end RabbitMQServer

/-- Without failures, an iteration of the worker is what `handle` computes. -/
theorem iteration_eq_handle (jndn : Jndn) (keyChain : KeyChain) (file : Text) (certificateName : Name) (message : Bytes)
    (data : Data) : RabbitMQWorker.iteration jndn keyChain none file certificateName message data =
      unchecked (RabbitMQWorker.handle jndn keyChain file certificateName message data) := by
  have passed {β : Type} (here : RabbitMQWorker.Call) (thrown : Thrown) (next : Unit → Except Thrown β) :
      (call none here thrown).bind next = next () := rfl
  simp only [RabbitMQWorker.iteration, RabbitMQWorker.handle, unchecked, bind, mapError_bind, passed]
  rfl

section Contained

variable {jndn : Jndn} {keyChain : KeyChain} {file : Text} {certificateName : Name} {message : Bytes} {data : Data}
  {Call : Type} [DecidableEq Call] {failing : Option Call} {here : Call} {thrown : Thrown} {catches : Thrown → Bool}

theorem contained_unchecked (uncaught : ∀ fault, catches (.unchecked fault) = false) (program : Except Fault α) :
    Contained (catches · = true) (unchecked program) ↔ Succeeds program :=
  contained_mapError (fun fault => by simp [uncaught fault]) program

theorem contained_after_call (caught : catches thrown = true) {next : Unit → Except Thrown α} :
    Contained (catches · = true) ((call failing here thrown).bind next) ↔
      failing = some here ∨ Contained (catches · = true) (next ()) := by
  rw [contained_bind]
  unfold call
  split
  · rename_i fails
    simp [fails, contained_error, caught]
  · rename_i passes
    simp only [contained_ok, true_and, true_implies, passes, false_or]
    exact ⟨fun held => held (), fun held _ => held⟩

/-! ## The worker -/

theorem substring_succeeds_iff {chunk : Int} : Succeeds (substring file chunk) ↔ 0 ≤ chunk ∧ chunk ≤ file.length := by
  unfold substring
  split
  · rename_i inside
    exact iff_of_true (succeeds_ok _) inside
  · rename_i outside
    refine iff_of_false (fun succeeds => ?_) outside
    obtain ⟨_, impossible⟩ := succeeds
    cases impossible

theorem substring_eq {chunk : Int} (inside : 0 ≤ chunk ∧ chunk ≤ file.length) :
    substring file chunk = .ok (file.take chunk.toNat) := if_pos inside

theorem decoding_succeeds_iff {program : Except Library.Wire.Fault α} :
    Succeeds (decoding program) ↔ Succeeds program := by
  simp only [Succeeds, decoding_eq_ok]

theorem unchecked_eq_ok {program : Except Fault α} {result : α} :
    unchecked program = .ok result ↔ program = .ok result := by
  cases program <;> simp [unchecked, Except.mapError]

/-- The number after the name of a request. -/
def chunkOf (message : Bytes) : Int := intAt message (nameEnd message)

/-- The Data that the worker signs for a request. -/
def signedFor (jndn : Jndn) (keyChain : KeyChain) (file : Text) (certificateName : Name) (message : Bytes)
    (data : Data) : Data :=
  keyChain.sign { data with
    name := nameOf jndn message
    content := some (jndn.blob (file.take (chunkOf message).toNat)) } certificateName

/-- Name and signature of a reply fit in one array. -/
def ReplyFits (jndn : Jndn) (reply : Data) : Prop :=
  (nameBytes jndn reply.name).length + blobSize reply.signatureBits + 8 < 2 ^ 31

/-- The statements of the worker's iteration in their order: each either is not
reached, for a call before it failed, or has what it needs. -/
def WorkerAccepts (jndn : Jndn) (keyChain : KeyChain) (failing : Option RabbitMQWorker.Call) (file : Text)
    (certificateName : Name) (message : Bytes) (data : Data) : Prop :=
  failing = some .nextDelivery ∨ InterestFits message ∧
    (failing = some .basicAck ∨ (0 ≤ chunkOf message ∧ chunkOf message ≤ file.length) ∧
      (failing = some .sign ∨ ReplyFits jndn (signedFor jndn keyChain file certificateName message data)))

theorem worker_contained_iff {failing : Option RabbitMQWorker.Call} :
    Contained (RabbitMQWorker.catches · = true)
        (RabbitMQWorker.iteration jndn keyChain failing file certificateName message data) ↔
      WorkerAccepts jndn keyChain failing file certificateName message data := by
  have uncaught : ∀ fault, RabbitMQWorker.catches (.unchecked fault) = false := fun _ => rfl
  simp only [RabbitMQWorker.iteration, bind, WorkerAccepts]
  rw [contained_after_call rfl, contained_bind, contained_unchecked uncaught, decoding_succeeds_iff,
    deserializeInterest_succeeds_iff]
  refine or_congr_right (and_congr_right fun fits => ?_)
  simp only [unchecked_eq_ok, decoding_eq_ok, deserializeInterest_eq fits, Except.ok.injEq, forall_eq']
  rw [contained_after_call rfl, contained_bind, contained_unchecked uncaught, substring_succeeds_iff]
  refine or_congr_right (and_congr_right fun inside => ?_)
  simp only [unchecked_eq_ok, substring_eq inside, Except.ok.injEq, forall_eq']
  rw [contained_after_call rfl, contained_bind, contained_unchecked uncaught, decoding_succeeds_iff,
    serializeSignature_succeeds_iff]
  refine or_congr_right (and_iff_left fun reply _ => ?_)
  exact (contained_after_call rfl).mpr (.inr (contained_ok _))

/-! ## The server -/

theorem deliveries_contained_iff {failing : Option RabbitMQServer.Call} {messages : List Bytes} {index : Nat} :
    Contained (RabbitMQServer.catches · = true) (RabbitMQServer.deliveries jndn failing index data messages) ↔
      ∀ message ∈ RabbitMQServer.decoded failing index messages, SignatureFits message := by
  have uncaught : ∀ fault, RabbitMQServer.catches (.unchecked fault) = false := fun _ => rfl
  induction messages generalizing index data with
  | nil => exact iff_of_true (contained_ok data) nofun
  | cons message rest ih =>
      simp only [RabbitMQServer.deliveries, RabbitMQServer.decoded, bind]
      rw [contained_after_call rfl]
      split
      · rename_i interrupted
        exact iff_of_true (.inl interrupted) nofun
      · rename_i delivered
        rw [or_iff_right delivered, contained_bind, contained_unchecked uncaught, RabbitMQServer.receive,
          decoding_succeeds_iff, deserializeSignature_succeeds_iff, List.forall_mem_cons]
        refine and_congr_right fun fits => ?_
        simp only [unchecked_eq_ok, decoding_eq_ok, deserializeSignature_eq fits, Except.ok.injEq, forall_eq']
        rw [contained_after_call rfl, contained_after_call rfl, ← or_assoc]
        split
        · rename_i failed
          exact iff_of_true (.inl failed) nofun
        · rename_i passed
          exact (or_iff_right passed).trans ih

theorem server_contained_iff {failing : Option RabbitMQServer.Call} {messages : List Bytes} :
    Contained (RabbitMQServer.catches · = true) (RabbitMQServer.iteration jndn failing messages data) ↔
      failing = some .queueDeclare ∨ ∀ message ∈ RabbitMQServer.decoded failing 0 messages, SignatureFits message := by
  simp only [RabbitMQServer.iteration, bind]
  rw [contained_after_call rfl, contained_bind, deliveries_contained_iff]
  refine or_congr_right (and_iff_left fun next _ => ?_)
  refine (contained_after_call rfl).mpr (.inr ?_)
  refine (contained_after_call rfl).mpr (.inr ?_)
  exact (contained_after_call rfl).mpr (.inr (contained_ok next))

/-- Whatever is delivered and whichever call fails, the two loops go on exactly
where every message that is decoded has the fields read from it, the worker's
file is long enough for the chunk, and the reply fits in an array. -/
theorem iterations_contained_iff (jndn : Jndn) (keyChain : KeyChain) (file : Text) (certificateName : Name)
    (data : Data) :
    (∀ failing message,
      Contained (RabbitMQWorker.catches · = true)
          (RabbitMQWorker.iteration jndn keyChain failing file certificateName message data) ↔
        WorkerAccepts jndn keyChain failing file certificateName message data) ∧
    ∀ failing messages,
      Contained (RabbitMQServer.catches · = true) (RabbitMQServer.iteration jndn failing messages data) ↔
        failing = some .queueDeclare ∨ ∀ message ∈ RabbitMQServer.decoded failing 0 messages, SignatureFits message :=
  ⟨fun _ _ => worker_contained_iff, fun _ _ => server_contained_iff⟩

end Contained

/-- A name length of -1, and a request for four letters of a file of three. -/
def negativeMessage : Bytes := [255, 255, 255, 255]

def longRequest : Bytes := interestLayout .reference sampleName 4

/-- Four messages that stop a loop, though no call fails. -/
theorem malformed_leaves_run :
    RabbitMQWorker.iteration .reference sampleKeyChain none sampleFile sampleName [] .fresh =
        .error (.unchecked (.wire .underflow)) ∧
      RabbitMQWorker.iteration .reference sampleKeyChain none sampleFile sampleName negativeMessage .fresh =
        .error (.unchecked (.wire .negativeSize)) ∧
      RabbitMQWorker.iteration .reference sampleKeyChain none sampleFile sampleName longRequest .fresh =
        .error (.unchecked .stringIndex) ∧
      RabbitMQServer.iteration .reference none [[]] sampleServer.dataModel =
        .error (.unchecked (.wire .underflow)) ∧
      ¬Contained (RabbitMQWorker.catches · = true)
        (RabbitMQWorker.iteration .reference sampleKeyChain none sampleFile sampleName [] .fresh) ∧
      ¬Contained (RabbitMQServer.catches · = true)
        (RabbitMQServer.iteration .reference none [[]] sampleServer.dataModel) := by
  refine ⟨rfl, rfl, by decide +kernel, rfl, fun contained => ?_, fun contained => ?_⟩
  · exact absurd (@contained (.unchecked (.wire .underflow)) rfl) (by decide)
  · exact absurd (@contained (.unchecked (.wire .underflow)) rfl) (by decide)

end Ndnperf.RabbitMQ

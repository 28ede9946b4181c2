import Ndnperf.Library.Outcome
import Ndnperf.RabbitMQ.RoundTrip
import Ndnperf.RabbitMQ.Signing

namespace Ndnperf.RabbitMQ

open Ndn Java Library.Outcome

variable {jndn : Jndn} {keyChain : KeyChain} {server : RabbitMQServer} {file : Text} {chunk freshness : Int}
  {certificateName name : Name} {request reply message : Bytes} {requests replies : List Bytes}
  {object workObject data next signed : Data}

theorem decoding_eq_ok {program : Except Library.Wire.Fault α} {result : α} :
    decoding program = .ok result ↔ program = .ok result := by
  cases program <;> simp [decoding, Except.mapError]

/-! ## What the objects of the two loops keep -/

theorem receive_keeps (received : RabbitMQServer.receive jndn message data = .ok next) :
    next.content = data.content ∧ next.freshnessPeriod = data.freshnessPeriod ∧ next.keyLocator = data.keyLocator := by
  simp only [RabbitMQServer.receive, decoding_eq_ok, SerializableData.deserializeSignature, bind, pure, Except.pure,
    bind_eq_ok, Except.ok.injEq] at received
  obtain ⟨_, _, _, _, _, _, rfl⟩ := received
  exact ⟨rfl, rfl, rfl⟩

theorem receiveAll_keeps (received : RabbitMQServer.receiveAll jndn data replies = .ok next) :
    next.content = data.content ∧ next.freshnessPeriod = data.freshnessPeriod ∧ next.keyLocator = data.keyLocator := by
  induction replies generalizing data with
  | nil =>
      simp only [RabbitMQServer.receiveAll, Except.ok.injEq] at received
      subst received
      exact ⟨rfl, rfl, rfl⟩
  | cons message rest ih =>
      simp only [RabbitMQServer.receiveAll, bind, bind_eq_ok] at received
      obtain ⟨middle, first, others⟩ := received
      obtain ⟨content, freshness, locator⟩ := receive_keeps first
      obtain ⟨contents, freshnesses, locators⟩ := ih others
      exact ⟨contents.trans content, freshnesses.trans freshness, locators.trans locator⟩

theorem handle_signed
    (handled : RabbitMQWorker.handle jndn keyChain file certificateName message data = .ok (signed, reply)) :
    signed.freshnessPeriod = data.freshnessPeriod ∧ signed.keyLocator = some (keyChain.locator certificateName) := by
  simp only [RabbitMQWorker.handle, decoding_eq_ok, SerializableData.deserializeInterest, bind, pure, Except.pure,
    bind_eq_ok, Except.ok.injEq, Prod.mk.injEq] at handled
  obtain ⟨_, ⟨_, _, _, _, _, _, rfl⟩, _, _, _, _, rfl, rfl⟩ := handled
  exact ⟨rfl, rfl⟩

theorem handleAll_freshness
    (handled : RabbitMQWorker.handleAll jndn keyChain file certificateName data requests = .ok next) :
    next.freshnessPeriod = data.freshnessPeriod := by
  induction requests generalizing data with
  | nil =>
      simp only [RabbitMQWorker.handleAll, Except.ok.injEq] at handled
      exact handled ▸ rfl
  | cons message rest ih =>
      simp only [RabbitMQWorker.handleAll, bind, bind_eq_ok] at handled
      obtain ⟨⟨middle, reply⟩, first, others⟩ := handled
      exact (ih others).trans (handle_signed first).1

theorem rabbitMQServer_dataModel (constructed : rabbitMQServer jndn file chunk freshness = .ok server) :
    server.dataModel.keyLocator = none ∧ server.dataModel.freshnessPeriod = Double.ofInt freshness := by
  simp only [rabbitMQServer, bind, pure, Except.pure] at constructed
  split at constructed <;> simp only [bind_eq_ok, Except.ok.injEq] at constructed <;>
    obtain ⟨_, _, rfl⟩ := constructed <;> exact ⟨rfl, rfl⟩

/-! ## One exchange -/

/-- An Interest, the worker's reply and the Data the server puts for it,
after any number of earlier requests and replies on either side. -/
inductive Exchange (jndn : Jndn) (keyChain : KeyChain) (file : Text) (certificateName : Name)
    (server : RabbitMQServer) (name : Name) (signed data : Data) : Prop where
  | intro {requests replies : List Bytes} {workObject object : Data} {request reply : Bytes}
      (worked : RabbitMQWorker.handleAll jndn keyChain file certificateName .fresh requests = .ok workObject)
      (relayed : RabbitMQServer.receiveAll jndn server.dataModel replies = .ok object)
      (asked : server.onInterest jndn name = .ok request)
      (handled : RabbitMQWorker.handle jndn keyChain file certificateName request workObject = .ok (signed, reply))
      (received : RabbitMQServer.receive jndn reply object = .ok data)

/-- The freshness periods on the two sides never meet either: the worker's is the default one. -/
theorem exchange_freshness (constructed : rabbitMQServer jndn file chunk freshness = .ok server)
    (exchange : Exchange jndn keyChain file certificateName server name signed data) :
    data.freshnessPeriod = Double.ofInt freshness ∧ signed.freshnessPeriod = Double.ofInt (-1) := by
  obtain ⟨worked, relayed, _, handled, received⟩ := exchange
  constructor
  · rw [(receive_keeps received).2.1, (receiveAll_keeps relayed).2.1, (rabbitMQServer_dataModel constructed).2]
  · rw [(handle_signed handled).1, handleAll_freshness worked]
    rfl

/-- The Data on the face never has the portion that was signed: the worker
signs its key locator, and no reply carries it. -/
theorem exchange_never_matches (constructed : rabbitMQServer jndn file chunk freshness = .ok server)
    (exchange : Exchange jndn keyChain file certificateName server name signed data) :
    signedPortion data ≠ signedPortion signed := by
  obtain ⟨_, relayed, _, handled, received⟩ := exchange
  intro same
  have absent : data.keyLocator = none := by
    rw [(receive_keeps received).2.2, (receiveAll_keeps relayed).2.2, (rabbitMQServer_dataModel constructed).1]
  have present := (handle_signed handled).2
  have located := congrArg SignedPortion.keyLocator same
  simp only [signedPortion, absent, present] at located
  exact Option.some_ne_none _ located.symm

def sampleKeyChain : KeyChain where
  locator certificateName := certificateName.dropLast
  signature _ := [1]

def sampleServer : RabbitMQServer where
  defaultData := ['a', 'b']
  dataModel := { Data.fresh with freshnessPeriod := Double.ofInt 0, content := some (ascii "ab") }

def sampleFile : Text := ['a', 'b', 'c']

def sampleSigned : Data :=
  sampleKeyChain.sign { Data.fresh with name := SerializableData.sampleName, content := some (ascii "ab") }
    SerializableData.sampleName

def samplePut : Data := { sampleServer.dataModel with name := SerializableData.sampleName, signatureBits := some [1] }

theorem exchange_sample : Exchange .reference sampleKeyChain sampleFile SerializableData.sampleName sampleServer
    SerializableData.sampleName sampleSigned samplePut :=
  @Exchange.intro _ _ _ _ _ _ _ _ [] [] _ _ ([0, 0, 0, 8] ++ ascii "/debit/a" ++ [0, 0, 0, 2])
    ([0, 0, 0, 8] ++ ascii "/debit/a" ++ [0, 0, 0, 1, 1]) rfl rfl (by decide +kernel) (by decide +kernel)
    (by decide +kernel)

theorem exchange_never_matches_sample : signedPortion samplePut ≠ signedPortion sampleSigned := by
  have constructed : rabbitMQServer .reference sampleFile 2 0 = .ok sampleServer := by decide +kernel
  exact exchange_never_matches constructed exchange_sample

/-- With the default freshness both the freshness period and the key locator are wrong. -/
theorem exchange_mismatch :
    rabbitMQServer .reference sampleFile 2 0 = .ok sampleServer ∧
      Exchange .reference sampleKeyChain sampleFile SerializableData.sampleName sampleServer
        SerializableData.sampleName sampleSigned samplePut ∧
      signedPortion samplePut ≠ signedPortion sampleSigned ∧
      (signedPortion samplePut).freshnessPeriod = some (Double.ofInt 0) ∧
      (signedPortion sampleSigned).freshnessPeriod = none ∧
      (signedPortion samplePut).keyLocator = none ∧
      (signedPortion sampleSigned).keyLocator = some [.generic (ascii "debit")] :=
  ⟨by decide +kernel, exchange_sample, by decide +kernel, by decide +kernel, by decide +kernel, rfl, by decide +kernel⟩

end Ndnperf.RabbitMQ

import Mathlib.Data.Multiset.Basic
import Ndnperf.RabbitMQ.Iterations
import Ndnperf.RabbitMQ.Requests

namespace Ndnperf.RabbitMQ.Pipeline

open Ndn Java Library.Transition Library.Transition.System Library.Tokens SerializableData List

variable {Worker : Type} [DecidableEq Worker] {setup : Setup Worker} {state before after : State Worker}
  {worker : Worker} {here next : WorkerState} {label : Label Worker} {fails : Bool} {name : Name} {number : Nat}
  {data object signed : Data} {body : Bytes} {delivery : Request}

/-! ## What the messages say -/

omit [DecidableEq Worker] in
/-- A request is decoded to the name of its Interest and the length of the server's own chunk. -/
theorem deserializeInterest_asked (short : setup.server.defaultData.length < 2 ^ 31)
    (lossless : setup.jndn.Lossless name) (asked : setup.server.onInterest setup.jndn name = .ok body) (object : Data) :
    deserializeInterest setup.jndn body object = .ok (setup.server.defaultData.length, { object with name }) := by
  obtain ⟨fits, rfl⟩ := serializeInterest_eq_ok (decoding_eq_ok.mp asked)
  exact deserializeInterest_layout lossless fits (by omega) (by omega)

omit [DecidableEq Worker] in
/-- A reply with a signature replaces the name and the signature of any object. -/
theorem receive_signed (lossless : setup.jndn.Lossless signed.name) {bits : Bytes} (nonempty : bits ≠ [])
    (signature : signed.signatureBits = some bits) (written : serializeSignature setup.jndn signed = .ok body)
    (object : Data) : RabbitMQServer.receive setup.jndn body object =
      .ok { object with name := signed.name, signatureBits := some bits } := by
  obtain ⟨fits, rfl⟩ := serializeSignature_eq_ok written
  refine decoding_eq_ok.mpr ((deserializeSignature_layout fits object).trans ?_)
  simp only [nameRead_eq lossless, received, signature, Option.getD_some, nonempty, if_false, Option.some_or]

omit [DecidableEq Worker] in
theorem reply_fits (written : serializeSignature setup.jndn signed = .ok body) : SignatureFits body := by
  obtain ⟨fits, rfl⟩ := serializeSignature_eq_ok written
  exact deserializeSignature_succeeds_iff.mp ⟨_, deserializeSignature_layout fits .fresh⟩

/-! ## Whose signature a name gets -/

/-- What a worker signed: the prefix of its file that the server asked for. -/
structure Signs (setup : Setup Worker) (state : State Worker) (worker : Worker) (signed : Data) : Prop where
  recorded : (worker, signed) ∈ state.signed
  enough : setup.server.defaultData.length ≤ (setup.file worker).length
  content : signed.content = some (setup.jndn.blob ((setup.file worker).take setup.server.defaultData.length))
  signature : signed.signatureBits = some ((setup.keyChain worker).signature (signedPortion signed))

/-- The Data has the signature of what some worker signed under the name of the Interest with that number. -/
def Carries (setup : Setup Worker) (state : State Worker) (number : Nat) (data : Data) : Prop :=
  ∃ worker signed, Signs setup state worker signed ∧ state.received[number]? = some signed.name ∧
    data.name = signed.name ∧ data.signatureBits = signed.signatureBits

/-- What the object of a worker has, statement by statement. -/
def WorkerState.Paired (setup : Setup Worker) (state : State Worker) (worker : Worker) (here : WorkerState) : Prop :=
  match here.pc with
  | .nextDelivery => True
  | .decode _ => True
  | .basicAck delivery chunk =>
      state.received[delivery.number]? = some here.data.name ∧ chunk = setup.server.defaultData.length
  | .setContent delivery chunk =>
      state.received[delivery.number]? = some here.data.name ∧ chunk = setup.server.defaultData.length
  | .sign delivery =>
      state.received[delivery.number]? = some here.data.name ∧
        setup.server.defaultData.length ≤ (setup.file worker).length ∧
        here.data.content = some (setup.jndn.blob ((setup.file worker).take setup.server.defaultData.length))
  | .basicPublish delivery =>
      state.received[delivery.number]? = some here.data.name ∧ Signs setup state worker here.data
  | .ended => True
  | .stopped => True

/-- The reply that the server is busy with. -/
def ServerPc.atHand : ServerPc → List Reply
  | .queueDeclare => []
  | .whileCount _ => []
  | .decode _ delivery => [delivery]
  | .putData _ delivery => [delivery]
  | .basicAck _ delivery => [delivery]
  | .processEvents => []
  | .ended => []

/-- Whatever the server has of replies was published, and can be decoded. -/
structure Listed (state : State Worker) : Prop where
  waiting : state.returnQueue ⊆ state.replied
  delivered : state.deliveries ⊆ state.replied
  atHand : state.pc.atHand ⊆ state.replied
  orderly : state.pc.atHand ++ state.deliveries <+ state.unacknowledged
  readable : ∀ reply ∈ state.replied, SignatureFits reply.body

structure Paired (setup : Setup Worker) (state : State Worker) : Prop where
  requests : ∀ request ∈ state.asked, ∃ name, state.received[request.number]? = some name ∧
    setup.server.onInterest setup.jndn name = .ok request.body
  workers : ∀ worker, (state.workers worker).Paired setup state worker
  replies : ∀ reply ∈ state.replied, ∃ worker signed, Signs setup state worker signed ∧
    state.received[reply.request]? = some signed.name ∧ serializeSignature setup.jndn signed = .ok reply.body
  object : state.data.content = setup.server.dataModel.content
  read : ∀ count delivery, state.pc = .putData count delivery → Carries setup state delivery.request state.data
  sent : ∀ entry ∈ state.sent, Carries setup state entry.1 entry.2 ∧
    entry.2.content = setup.server.dataModel.content

omit [DecidableEq Worker] in
theorem listed_initial : Listed (.initial setup : State Worker) where
  waiting := nofun
  delivered := nofun
  atHand := nofun
  orderly := .slnil
  readable := nofun

omit [DecidableEq Worker] in
theorem paired_initial : Paired setup (.initial setup) where
  requests := nofun
  workers _ := trivial
  replies := nofun
  object := rfl
  read := nofun
  sent := nofun

section Later

omit [DecidableEq Worker]

/-- Nothing that was received or signed is forgotten. -/
structure Later (before after : State Worker) : Prop where
  received : before.received <+: after.received
  signed : before.signed ⊆ after.signed

theorem Later.found (later : Later before after) (found : before.received[number]? = some name) :
    after.received[number]? = some name := by
  obtain ⟨more, longer⟩ := later.received
  obtain ⟨inside, same⟩ := List.getElem?_eq_some_iff.mp found
  rw [← longer, getElem?_append_left inside, found]

theorem Signs.later (signs : Signs setup before worker signed) (later : Later before after) :
    Signs setup after worker signed := ⟨later.signed signs.recorded, signs.enough, signs.content, signs.signature⟩

theorem Carries.later (carries : Carries setup before number data) (later : Later before after) :
    Carries setup after number data := by
  obtain ⟨worker, signed, signs, found, named, signature⟩ := carries
  exact ⟨worker, signed, signs.later later, later.found found, named, signature⟩

theorem WorkerState.Paired.later (paired : here.Paired setup before worker) (later : Later before after) :
    here.Paired setup after worker := by
  unfold WorkerState.Paired at paired ⊢
  split at paired
  · trivial
  · trivial
  · exact ⟨later.found paired.1, paired.2⟩
  · exact ⟨later.found paired.1, paired.2⟩
  · exact ⟨later.found paired.1, paired.2⟩
  · exact ⟨later.found paired.1, paired.2.later later⟩
  · trivial
  · trivial

end Later

theorem later_moves (moved : Moves setup before label after) : Later before after := by
  refine ⟨received_moves moved, ?_⟩
  cases moved with
  | interest asked => cases asked <;> exact Subset.refl _
  | deliverRequest | deliverReply | stop => exact Subset.refl _
  | server served => cases served <;> exact Subset.refl _
  | worker worked =>
      cases worked with
      | signed => exact subset_append_left _ _
      | taken | decoded | acknowledged | filled | published | abandoned => exact Subset.refl _

/-- What has to hold of the names received and of the parties for names to survive. -/
structure Faithful (setup : Setup Worker) (state : State Worker) : Prop where
  lossless : ∀ name ∈ state.received, setup.jndn.Lossless name
  short : setup.server.defaultData.length < 2 ^ 31
  nonempty : ∀ worker portion, (setup.keyChain worker).signature portion ≠ []

theorem paired_works (faithful : Faithful setup before) (accounted : Accounted before) (paired : Paired setup before)
    (worked : Works setup before worker fails after) : ∀ other, (after.workers other).Paired setup after other := by
  have later := later_moves (.worker worked)
  have others : ∀ other, (before.workers other).Paired setup after other :=
    fun other => (paired.workers other).later later
  have earlier := others worker
  cases worked with
  | taken => exact forall_setWorker _ others trivial
  | abandoned idle => obtain rfl | rfl := idle <;> exact forall_setWorker _ others trivial
  | @decoded delivery chunk data here read =>
      have inHand : delivery ∈ (before.workers worker).pending := by simp [WorkerState.pending, here, WorkerPc.atHand]
      have asked := accounted.held worker ((accounted.orderly worker).subset inHand)
      obtain ⟨name, found, written⟩ := paired.requests delivery asked
      have lossless := faithful.lossless name (mem_of_getElem? found)
      have decoded := deserializeInterest_asked faithful.short lossless written (before.workers worker).data
      obtain ⟨rfl, rfl⟩ := Prod.mk.inj (Except.ok.inj (read.symm.trans decoded))
      exact forall_setWorker _ others (show _ ∧ _ from ⟨found, rfl⟩)
  | acknowledged here =>
      simp only [WorkerState.Paired, here] at earlier
      exact forall_setWorker _ others (show _ ∧ _ from earlier)
  | @filled delivery chunk content here cut =>
      simp only [WorkerState.Paired, here] at earlier
      obtain ⟨named, rfl⟩ := earlier
      have inside := substring_succeeds_iff.mp ⟨_, cut⟩
      obtain rfl := Except.ok.inj (cut.symm.trans (substring_eq inside))
      exact forall_setWorker _ others (show _ ∧ _ ∧ _ from ⟨named, by omega, rfl⟩)
  | @signed delivery data here computed =>
      simp only [WorkerState.Paired, here] at earlier
      obtain ⟨named, enough, content⟩ := earlier
      subst computed
      refine forall_setWorker _ others (show _ ∧ _ from ⟨named, ?_, enough, content, rfl⟩)
      exact mem_append_right _ (mem_singleton_self _)
  | published => exact forall_setWorker _ others trivial

theorem paired_workers (faithful : Faithful setup before) (accounted : Accounted before) (paired : Paired setup before)
    (moved : Moves setup before label after) : ∀ worker, (after.workers worker).Paired setup after worker := by
  have later := later_moves moved
  have others : ∀ other, (before.workers other).Paired setup after other :=
    fun other => (paired.workers other).later later
  cases moved with
  | interest asked => cases asked <;> exact others
  | deliverReply => exact others
  | server served => cases served <;> exact others
  | worker worked => exact paired_works faithful accounted paired worked
  | stop => exact forall_setWorker _ others trivial
  | @deliverRequest worker => exact forall_setWorker _ others (others worker)

theorem paired_requests (paired : Paired setup before) (moved : Moves setup before label after) :
    ∀ request ∈ after.asked, ∃ name, after.received[request.number]? = some name ∧
      setup.server.onInterest setup.jndn name = .ok request.body := by
  have later := later_moves moved
  have earlier : ∀ request ∈ before.asked, ∃ name, after.received[request.number]? = some name ∧
      setup.server.onInterest setup.jndn name = .ok request.body := by
    intro request asked
    obtain ⟨name, found, written⟩ := paired.requests request asked
    exact ⟨name, later.found found, written⟩
  cases moved with
  | interest asks =>
      cases asks with
      | lost => exact earlier
      | published here written =>
          intro request asked
          obtain asked | new := mem_append.mp asked
          · exact earlier request asked
          · obtain rfl := mem_singleton.mp new
            exact ⟨_, by simp, written⟩
  | deliverRequest | deliverReply | stop => exact earlier
  | worker worked => cases worked <;> exact earlier
  | server served => cases served <;> exact earlier

theorem paired_replies (paired : Paired setup before) (moved : Moves setup before label after) :
    ∀ reply ∈ after.replied, ∃ worker signed, Signs setup after worker signed ∧
      after.received[reply.request]? = some signed.name ∧
      serializeSignature setup.jndn signed = .ok reply.body := by
  have later := later_moves moved
  have earlier : ∀ reply ∈ before.replied, ∃ worker signed, Signs setup after worker signed ∧
      after.received[reply.request]? = some signed.name ∧ serializeSignature setup.jndn signed = .ok reply.body := by
    intro reply listed
    obtain ⟨worker, signed, signs, found, written⟩ := paired.replies reply listed
    exact ⟨worker, signed, signs.later later, later.found found, written⟩
  cases moved with
  | interest asks => cases asks <;> exact earlier
  | deliverRequest | deliverReply | stop => exact earlier
  | server served => cases served <;> exact earlier
  | @worker worker fails after worked =>
      cases worked with
      | published here written =>
          intro reply listed
          obtain listed | new := mem_append.mp listed
          · exact earlier reply listed
          · obtain rfl := mem_singleton.mp new
            have signs := paired.workers worker
            simp only [WorkerState.Paired, here] at signs
            exact ⟨worker, _, signs.2.later later, signs.1, written⟩
      | taken | decoded | acknowledged | filled | signed | abandoned => exact earlier

theorem listed_works (listed : Listed before) (worked : Works setup before worker fails after) : Listed after := by
  cases worked with
  | taken | decoded | acknowledged | filled | signed | abandoned =>
      exact ⟨listed.waiting, listed.delivered, listed.atHand, listed.orderly, listed.readable⟩
  | published here written =>
      have more {replies : List Reply} (earlier : replies ⊆ before.replied) (reply : Reply) :
          replies ⊆ before.replied ++ [reply] := Subset.trans earlier (subset_append_left _ _)
      refine ⟨append_subset.mpr ⟨more listed.waiting _, subset_append_right _ _⟩, more listed.delivered _,
        more listed.atHand _, listed.orderly, fun reply member => ?_⟩
      obtain member | new := mem_append.mp member
      · exact listed.readable reply member
      · obtain rfl := mem_singleton.mp new
        exact reply_fits written

omit [DecidableEq Worker] in
theorem listed_serves (listed : Listed before) (served : Serves setup before fails after) : Listed after := by
  have orderly := listed.orderly
  have atHand := listed.atHand
  have deliveries := (sublist_append_right _ _).trans orderly
  cases served with
  | declared | drained | processed | failed | undecodable =>
      exact ⟨listed.waiting, listed.delivered, nil_subset _, deliveries, listed.readable⟩
  | taken here found =>
      have delivered := listed.delivered
      rw [found] at delivered deliveries
      exact ⟨listed.waiting, (cons_subset.mp delivered).2,
        cons_subset.mpr ⟨(cons_subset.mp delivered).1, nil_subset _⟩, deliveries, listed.readable⟩
  | decoded here | put here =>
      rw [here] at atHand orderly
      exact ⟨listed.waiting, listed.delivered, atHand, orderly, listed.readable⟩
  | @acknowledged count delivery here =>
      rw [here] at orderly
      have others := orderly.erase delivery
      simp only [ServerPc.atHand, singleton_append, erase_cons_head] at others
      exact ⟨listed.waiting, listed.delivered, nil_subset _, others, listed.readable⟩

theorem listed_moves (listed : Listed before) (moved : Moves setup before label after) : Listed after := by
  cases moved with
  | interest asks =>
      cases asks with
      | published => exact ⟨listed.waiting, listed.delivered, listed.atHand, listed.orderly, listed.readable⟩
      | lost here left =>
          have deliveries := (sublist_append_right _ _).trans listed.orderly
          obtain rfl | rfl := left <;>
            exact ⟨listed.waiting, listed.delivered, nil_subset _, deliveries, listed.readable⟩
  | deliverRequest | stop => exact ⟨listed.waiting, listed.delivered, listed.atHand, listed.orderly, listed.readable⟩
  | worker worked => exact listed_works listed worked
  | server served => exact listed_serves listed served
  | @deliverReply index reply found =>
      have published := listed.waiting (mem_of_getElem? found)
      refine ⟨Subset.trans eraseIdx_subset listed.waiting,
        append_subset.mpr ⟨listed.delivered, cons_subset.mpr ⟨published, nil_subset _⟩⟩, listed.atHand, ?_,
        listed.readable⟩
      have longer := listed.orderly.append_right [reply]
      rwa [append_assoc] at longer

theorem paired_object (paired : Paired setup before) (moved : Moves setup before label after) :
    after.data.content = setup.server.dataModel.content := by
  have same := paired.object
  cases moved with
  | interest asks => cases asks <;> exact same
  | deliverRequest | deliverReply | stop => exact same
  | worker worked => cases worked <;> exact same
  | server served =>
      cases served with
      | decoded here read => exact (receive_keeps read).1.trans same
      | declared | drained | taken | put | acknowledged | processed | failed | undecodable => exact same

theorem paired_read (faithful : Faithful setup before) (listed : Listed before) (paired : Paired setup before)
    (moved : Moves setup before label after) :
    ∀ count delivery, after.pc = .putData count delivery → Carries setup after delivery.request after.data := by
  have later := later_moves moved
  have earlier : ∀ count delivery, before.pc = .putData count delivery →
      Carries setup after delivery.request before.data :=
    fun count delivery here => (paired.read count delivery here).later later
  cases moved with
  | interest asks =>
      cases asks with
      | published => exact earlier
      | lost here left => obtain rfl | rfl := left <;> nofun
  | deliverRequest | deliverReply | stop => exact earlier
  | worker worked => cases worked <;> exact earlier
  | server served =>
      cases served with
      | declared | drained | taken | put | acknowledged | processed | failed | undecodable => nofun
      | @decoded count delivery data here read =>
          intro _ _ there
          cases there
          have replied : delivery ∈ before.replied := listed.atHand (by simp [here, ServerPc.atHand])
          obtain ⟨worker, signed, signs, found, written⟩ := paired.replies delivery replied
          have lossless := faithful.lossless signed.name (mem_of_getElem? found)
          have decoded := receive_signed lossless (faithful.nonempty _ _) signs.signature written before.data
          obtain rfl := Except.ok.inj (read.symm.trans decoded)
          exact ⟨worker, signed, signs.later later, found, rfl, signs.signature.symm⟩

theorem paired_sent (paired : Paired setup before) (moved : Moves setup before label after) :
    ∀ entry ∈ after.sent, Carries setup after entry.1 entry.2 ∧
      entry.2.content = setup.server.dataModel.content := by
  have later := later_moves moved
  have earlier : ∀ entry ∈ before.sent, Carries setup after entry.1 entry.2 ∧
      entry.2.content = setup.server.dataModel.content :=
    fun entry listed => (paired.sent entry listed).imp_left fun carries => carries.later later
  cases moved with
  | interest asks => cases asks <;> exact earlier
  | deliverRequest | deliverReply | stop => exact earlier
  | worker worked => cases worked <;> exact earlier
  | server served =>
      cases served with
      | put here =>
          intro entry listed
          obtain listed | new := mem_append.mp listed
          · exact earlier entry listed
          · obtain rfl := mem_singleton.mp new
            exact ⟨(paired.read _ _ here).later later, paired.object⟩
      | declared | drained | taken | decoded | acknowledged | processed | failed | undecodable => exact earlier

theorem paired_moves (faithful : Faithful setup before) (accounted : Accounted before) (listed : Listed before)
    (paired : Paired setup before) (moved : Moves setup before label after) : Paired setup after where
  requests := paired_requests paired moved
  workers := paired_workers faithful accounted paired moved
  replies := paired_replies paired moved
  object := paired_object paired moved
  read := paired_read faithful listed paired moved
  sent := paired_sent paired moved

theorem Faithful.earlier (faithful : Faithful setup after) (moved : Moves setup before label after) :
    Faithful setup before :=
  ⟨fun name listed => faithful.lossless name ((received_moves moved).subset listed), faithful.short, faithful.nonempty⟩

/-- The account, the list and, for names that survive, the pairing. -/
structure Sound (setup : Setup Worker) (state : State Worker) : Prop where
  accounted : Accounted state
  listed : Listed state
  paired : Faithful setup state → Paired setup state

theorem sound_inductive : (pipeline setup).Inductive (Sound setup) where
  start := fun start => start ▸ ⟨accounted_initial, listed_initial, fun _ => paired_initial⟩
  step := fun sound moved => by
    have moved := moves_of_step moved
    refine ⟨accounted_moves sound.accounted moved, listed_moves sound.listed moved, fun faithful => ?_⟩
    have faithful := faithful.earlier moved
    exact paired_moves faithful sound.accounted sound.listed (sound.paired faithful) moved

/-! ## Where a reply is -/

inductive ReplyPlace where
  | queued
  | delivered
  | atHand
  | answered

/-- The reply whose Data is not on the face yet. -/
def ServerPc.unanswered : ServerPc → List Nat
  | .queueDeclare => []
  | .whileCount _ => []
  | .decode _ delivery => [delivery.request]
  | .putData _ delivery => [delivery.request]
  | .basicAck _ _ => []
  | .processEvents => []
  | .ended => []

def State.answers (state : State Worker) : ReplyPlace → List Nat
  | .queued => state.returnQueue.map Reply.request
  | .delivered => state.deliveries.map Reply.request
  | .atHand => state.pc.unanswered
  | .answered => state.sent.map Prod.fst

/-- Every reply is in one place at a time, and was published. -/
structure Dispatched (state : State Worker) : Prop where
  exclusive : Exclusive state.answers
  known : ∀ place, state.answers place ⊆ state.numbers .replied

/-- The number of a reply published by the step. -/
def Published (before after : State Worker) (number : Nat) : Prop :=
  number ∈ after.numbers .replied ∧ number ∉ before.numbers .replied

abbrev Dispatches (before after : State Worker) : Prop := Flow (Published before after) before.answers after.answers

omit [DecidableEq Worker] in
theorem dispatched_initial : Dispatched (.initial setup : State Worker) where
  exclusive := exclusive_nowhere fun place => by cases place <;> rfl
  known place := by cases place <;> nofun

omit [DecidableEq Worker] in
theorem dispatches_of_eq (same : after.answers = before.answers) : Dispatches before after :=
  .lose fun place => by rw [same]

omit [DecidableEq Worker] in
theorem answers_congr (queued : after.returnQueue = before.returnQueue)
    (delivered : after.deliveries = before.deliveries) (atHand : after.pc.unanswered = before.pc.unanswered)
    (answered : after.sent = before.sent) :
    after.answers = before.answers := by
  funext place
  cases place <;> simp only [State.answers, queued, delivered, atHand, answered]

omit [DecidableEq Worker] in
/-- A server that sends nothing may drop the reply it has at hand. -/
theorem dispatches_drop (queued : after.returnQueue = before.returnQueue)
    (delivered : after.deliveries = before.deliveries) (atHand : after.pc.unanswered = [])
    (answered : after.sent = before.sent) : Dispatches before after := by
  refine .lose fun place => ?_
  cases place <;> simp only [State.answers, queued, delivered, atHand, answered]
  case atHand => exact nil_subperm
  all_goals exact .refl _

theorem dispatches_works (accounted : Accounted before) (worked : Works setup before worker fails after) :
    Dispatches before after := by
  cases worked with
  | taken | decoded | acknowledged | filled | signed | abandoned => exact dispatches_of_eq rfl
  | @published delivery body here =>
      have working : delivery.number ∈ before.numbers (.working worker) := by
        simp [State.numbers, here, WorkerPc.working]
      have fresh : Published before ((before.publish { request := delivery.number, body }).setWorker worker
          { before.workers worker with pc := .nextDelivery }) delivery.number := by
        refine ⟨mem_map.mpr ⟨_, mem_append_right _ (mem_singleton_self _), rfl⟩, fun replied => ?_⟩
        cases accounted.exclusive.apart working replied
      refine @Flow.enter _ _ _ _ _ .queued _ fresh ?_ fun place notQueued => ?_
      · change (before.returnQueue ++ [Reply.mk delivery.number body]).map Reply.request <+~
          delivery.number :: before.returnQueue.map Reply.request
        rw [map_append]
        exact perm_append_comm.subperm
      · cases place with
        | queued => exact absurd rfl notQueued
        | delivered | atHand | answered => exact .refl _

omit [DecidableEq Worker] in
theorem dispatches_serves (served : Serves setup before fails after) : Dispatches before after := by
  cases served with
  | declared here | drained here | decoded here | acknowledged here | processed here =>
      exact dispatches_of_eq (answers_congr rfl rfl (by rw [here]; rfl) rfl)
  | failed | undecodable => exact dispatches_drop rfl rfl rfl rfl
  | @taken count delivery rest here found =>
      have different : ReplyPlace.delivered ≠ .atHand := nofun
      refine @Flow.move _ _ _ _ _ _ _ [delivery.request] different ?_ ?_ fun place notDelivered notAtHand => ?_
      · simp only [State.answers, found, map_cons, singleton_append]
        exact .refl _
      · simp only [State.answers, here]
        exact .refl _
      · cases place with
        | delivered => exact absurd rfl notDelivered
        | atHand => exact absurd rfl notAtHand
        | queued | answered => exact .refl _
  | @put count delivery here =>
      have different : ReplyPlace.atHand ≠ .answered := nofun
      refine @Flow.move _ _ _ _ _ _ _ [delivery.request] different ?_ ?_ fun place notAtHand notAnswered => ?_
      · simp only [State.answers, here]
        exact .refl _
      · simp only [State.answers, map_append]
        exact perm_append_comm.subperm
      · cases place with
        | atHand => exact absurd rfl notAtHand
        | answered => exact absurd rfl notAnswered
        | queued | delivered => exact .refl _

theorem dispatches_moves (accounted : Accounted before) (moved : Moves setup before label after) :
    Dispatches before after := by
  cases moved with
  | interest asks =>
      cases asks with
      | published => exact dispatches_of_eq rfl
      | lost here left => exact dispatches_drop rfl rfl (by obtain rfl | rfl := left <;> rfl) rfl
  | deliverRequest | stop => exact dispatches_of_eq rfl
  | worker worked => exact dispatches_works accounted worked
  | server served => exact dispatches_serves served
  | @deliverReply index reply found =>
      obtain ⟨inside, rfl⟩ := List.getElem?_eq_some_iff.mp found
      have different : ReplyPlace.queued ≠ .delivered := nofun
      refine @Flow.move _ _ _ _ _ _ _ [before.returnQueue[index].request] different ?_ ?_
        fun place notQueued notDelivered => ?_
      · exact ((getElem_cons_eraseIdx_perm inside).map Reply.request).subperm
      · simp only [State.answers, map_append]
        exact perm_append_comm.subperm
      · cases place with
        | queued => exact absurd rfl notQueued
        | delivered => exact absurd rfl notDelivered
        | atHand | answered => exact .refl _

theorem replied_moves (moved : Moves setup before label after) : before.numbers .replied ⊆ after.numbers .replied := by
  cases moved with
  | interest asks => cases asks <;> exact Subset.refl _
  | deliverRequest | deliverReply | stop => exact Subset.refl _
  | server served => cases served <;> exact Subset.refl _
  | worker worked =>
      cases worked with
      | published => exact map_subset _ (subset_append_left _ _)
      | taken | decoded | acknowledged | filled | signed | abandoned => exact Subset.refl _

theorem dispatched_moves (accounted : Accounted before) (dispatched : Dispatched before)
    (moved : Moves setup before label after) : Dispatched after := by
  have dispatches := dispatches_moves accounted moved
  refine ⟨dispatches.exclusive dispatched.exclusive fun number published place member => ?_,
    fun place number member => ?_⟩
  · exact published.2 (dispatched.known place member)
  · obtain ⟨earlier, member⟩ | published := dispatches.origin member
    · exact replied_moves moved (dispatched.known earlier member)
    · exact published.1

theorem dispatched_inductive : (pipeline setup).Inductive fun state => Accounted state ∧ Dispatched state where
  start := fun start => start ▸ ⟨accounted_initial, dispatched_initial⟩
  step := fun sound moved =>
    ⟨accounted_moves sound.1 (moves_of_step moved), dispatched_moves sound.1 sound.2 (moves_of_step moved)⟩

/-- Whatever order the broker and the parties choose, and whatever fails, every
Data on the face has the signature that some worker computed under its name
over the requested prefix, and no name is answered more often than it was asked for. -/
theorem replies_paired (reached : (pipeline setup).Reachable state)
    (lossless : ∀ name ∈ state.received, setup.jndn.Lossless name)
    (short : setup.server.defaultData.length < 2 ^ 31)
    (nonempty : ∀ worker portion, (setup.keyChain worker).signature portion ≠ []) :
    (∀ entry ∈ state.sent, entry.2.content = setup.server.dataModel.content ∧
      ∃ worker signed, (worker, signed) ∈ state.signed ∧ signed.name = entry.2.name ∧
        setup.server.defaultData.length ≤ (setup.file worker).length ∧
        signed.content = some (setup.jndn.blob ((setup.file worker).take setup.server.defaultData.length)) ∧
        signed.signatureBits = some ((setup.keyChain worker).signature (signedPortion signed)) ∧
        entry.2.signatureBits = signed.signatureBits) ∧
    (state.sent.map fun entry => entry.2.name : Multiset Name) ≤ state.received := by
  have paired := (sound_inductive.reachable reached).paired ⟨lossless, short, nonempty⟩
  have dispatched := (dispatched_inductive.reachable reached).2
  refine ⟨fun entry listed => ?_, ?_⟩
  · obtain ⟨⟨worker, signed, signs, _, named, signature⟩, content⟩ := paired.sent entry listed
    exact ⟨content, worker, signed, signs.recorded, named.symm, signs.enough, signs.content, signs.signature, signature⟩
  · have distinct : ((state.sent.map fun entry => (entry.1, entry.2.name)).map Prod.fst).Nodup := by
      rw [map_map]
      exact dispatched.exclusive.nodup .answered
    have found : ∀ indexed ∈ state.sent.map fun entry => (entry.1, entry.2.name),
        state.received[indexed.1]? = some indexed.2 := by
      intro indexed listed
      obtain ⟨entry, member, rfl⟩ := mem_map.mp listed
      obtain ⟨⟨_, signed, _, found, named, _⟩, _⟩ := paired.sent entry member
      rw [named]
      exact found
    have few := subperm_of_indices distinct found
    rw [map_map] at few
    exact Multiset.coe_le.mpr few

/-- The worker signs and publishes, and the server finds the reply in the queue. -/
def sampleAnswer : List (Label Unit) :=
  sampleAsk ++ [.worker () false, .worker () false, .server false, .server false, .deliverReply 0, .server false,
    .server false, .server false]

theorem replies_paired_sample :
    ∃ state, (pipeline sampleSetup).run (.initial sampleSetup) sampleAnswer = some state ∧
      state.sent = [(0, samplePut)] ∧
      (∃ worker signed, (worker, signed) ∈ state.signed ∧ signed.name = sampleName ∧
        signed.signatureBits = samplePut.signatureBits) ∧
      ((state.sent.map fun entry => entry.2.name : List Name) : Multiset Name) ≤ state.received := by
  have ran : ∃ state, (pipeline sampleSetup).run (.initial sampleSetup) sampleAnswer = some state ∧
      state.sent = [(0, samplePut)] ∧ state.received = [sampleName] := ⟨_, rfl, rfl, rfl⟩
  obtain ⟨state, ran, sent, received⟩ := ran
  have reached : (pipeline sampleSetup).Reachable state := (Reachable.start rfl).run ran
  have lossless : ∀ name ∈ state.received, sampleSetup.jndn.Lossless name := by
    intro name listed
    rw [received, mem_singleton] at listed
    exact listed ▸ lossless_sample
  have paired := replies_paired reached lossless (by decide) (fun _ _ => cons_ne_nil 1 [])
  obtain ⟨_, worker, signed, recorded, named, _, _, _, same⟩ := paired.1 (0, samplePut) (by simp [sent])
  exact ⟨state, ran, sent, ⟨worker, signed, recorded, named, same.symm⟩, paired.2⟩

end Ndnperf.RabbitMQ.Pipeline

import Ndnperf.Library.Tokens
import Ndnperf.RabbitMQ.Pipeline
import Ndnperf.RabbitMQ.SigningProperties

namespace Ndnperf.RabbitMQ.Pipeline

open Ndn Java Library.Transition Library.Transition.System Library.Tokens List

variable {Worker : Type} [DecidableEq Worker] {setup : Setup Worker} {state before after : State Worker}
  {worker : Worker} {next : WorkerState} {label : Label Worker} {fails : Bool} {index : Nat} {name : Name}

/-! ## Where a request is -/

inductive Place (Worker : Type) where
  | queued
  | held (worker : Worker)
  | working (worker : Worker)
  | replied

/-- The request that was acknowledged and is being worked on. -/
def WorkerPc.working : WorkerPc → List Nat
  | .nextDelivery => []
  | .decode _ => []
  | .basicAck _ _ => []
  | .setContent delivery _ => [delivery.number]
  | .sign delivery => [delivery.number]
  | .basicPublish delivery => [delivery.number]
  | .ended => []
  | .stopped => []

/-- The delivery that was taken and is not acknowledged yet. -/
def WorkerPc.atHand : WorkerPc → List Request
  | .nextDelivery => []
  | .decode delivery => [delivery]
  | .basicAck delivery _ => [delivery]
  | .setContent _ _ => []
  | .sign _ => []
  | .basicPublish _ => []
  | .ended => []
  | .stopped => []

def WorkerState.pending (here : WorkerState) : List Request := here.pc.atHand ++ here.deliveries

def State.numbers (state : State Worker) : Place Worker → List Nat
  | .queued => state.signQueue.map Request.number
  | .held worker => (state.workers worker).unacknowledged.map Request.number
  | .working worker => (state.workers worker).pc.working
  | .replied => state.replied.map Reply.request

/-- What a worker is about to work on is not acknowledged. -/
def WorkerState.Orderly (here : WorkerState) : Prop := here.pending <+ here.unacknowledged

/-- Every request is in one place at a time, and was asked for. -/
structure Accounted (state : State Worker) : Prop where
  exclusive : Exclusive state.numbers
  known : ∀ place, ∀ number ∈ state.numbers place, number < state.received.length
  orderly : ∀ worker, (state.workers worker).Orderly
  queued : state.signQueue ⊆ state.asked
  held : ∀ worker, (state.workers worker).unacknowledged ⊆ state.asked

@[simp] theorem setWorker_self : (state.setWorker worker next).workers worker = next := Function.update_self ..

theorem setWorker_of_ne {other : Worker} (different : other ≠ worker) :
    (state.setWorker worker next).workers other = state.workers other := Function.update_of_ne different ..

theorem numbers_elsewhere {place : Place Worker} (notHeld : place ≠ .held worker)
    (notWorking : place ≠ .working worker) :
    (state.setWorker worker next).numbers place = state.numbers place := by
  cases place with
  | queued | replied => rfl
  | held other =>
      have different : other ≠ worker := fun same => notHeld (same ▸ rfl)
      simp only [State.numbers, setWorker_of_ne different]
  | working other =>
      have different : other ≠ worker := fun same => notWorking (same ▸ rfl)
      simp only [State.numbers, setWorker_of_ne different]

theorem numbers_held :
    (state.setWorker worker next).numbers (.held worker) = next.unacknowledged.map Request.number := by
  simp only [State.numbers, setWorker_self]

theorem numbers_working : (state.setWorker worker next).numbers (.working worker) = next.pc.working := by
  simp only [State.numbers, setWorker_self]

theorem numbers_of_held {place : Place Worker} (held : next.unacknowledged = (state.workers worker).unacknowledged)
    (notWorking : place ≠ .working worker) : (state.setWorker worker next).numbers place = state.numbers place := by
  by_cases isHeld : place = .held worker
  · subst isHeld
    rw [numbers_held, held]
    rfl
  · exact numbers_elsewhere isHeld notWorking

theorem numbers_of_working {place : Place Worker} (working : next.pc.working = (state.workers worker).pc.working)
    (notHeld : place ≠ .held worker) : (state.setWorker worker next).numbers place = state.numbers place := by
  by_cases isWorking : place = .working worker
  · subst isWorking
    rw [numbers_working, working]
    rfl
  · exact numbers_elsewhere notHeld isWorking

omit [DecidableEq Worker] in
theorem numbers_requeue {place : Place Worker} (notQueued : place ≠ .queued) (queue : List Request) :
    ({ state with signQueue := queue } : State Worker).numbers place = state.numbers place := by
  cases place with
  | queued => exact absurd rfl notQueued
  | held | working | replied => rfl

omit [DecidableEq Worker] in
theorem numbers_publish {place : Place Worker} (notReplied : place ≠ .replied) (reply : Reply) :
    (state.publish reply).numbers place = state.numbers place := by
  cases place with
  | replied => exact absurd rfl notReplied
  | queued | held | working => rfl

/-- What holds of every worker holds after one of them took a step. -/
theorem forall_setWorker (P : Worker → WorkerState → Prop) (others : ∀ other, P other (state.workers other))
    (here : P worker next) (other : Worker) : P other ((state.setWorker worker next).workers other) := by
  by_cases same : other = worker
  · subst same
    rw [setWorker_self]
    exact here
  · rw [setWorker_of_ne same]
    exact others other

omit [DecidableEq Worker] in
theorem accounted_initial : Accounted (.initial setup : State Worker) where
  exclusive := exclusive_nowhere fun place => by cases place <;> rfl
  known place := by cases place <;> nofun
  orderly _ := .slnil
  queued := nofun
  held _ := nofun

/-! ## What one step does with the requests -/

/-- The number that the next request gets. -/
def Fresh (before after : State Worker) (number : Nat) : Prop :=
  number = before.received.length ∧ before.received.length < after.received.length

abbrev Flows (before after : State Worker) : Prop := Flow (Fresh before after) before.numbers after.numbers

omit [DecidableEq Worker] in
theorem numbers_congr {left right : State Worker} (queued : left.signQueue = right.signQueue)
    (workers : left.workers = right.workers) (replied : left.replied = right.replied) :
    left.numbers = right.numbers := by
  funext place
  cases place <;> simp only [State.numbers, queued, workers, replied]

omit [DecidableEq Worker] in
theorem flows_of_eq (same : after.numbers = before.numbers) : Flows before after := .lose fun place => by rw [same]

/-- A worker that acknowledges nothing and publishes nothing keeps its requests, or loses the one it works on. -/
theorem flows_setWorker {middle : State Worker} (same : middle.numbers = before.numbers)
    (held : next.unacknowledged = (middle.workers worker).unacknowledged)
    (working : next.pc.working <+~ (middle.workers worker).pc.working) :
    Flows before (middle.setWorker worker next) := by
  refine .lose fun place => ?_
  rw [← same]
  by_cases isWorking : place = .working worker
  · subst isWorking
    rw [numbers_working]
    exact working
  · rw [numbers_of_held held isWorking]

omit [DecidableEq Worker] in
theorem flows_between {source target : Place Worker} (different : source ≠ target) (moved : List Nat)
    (taken : moved ++ after.numbers source <+~ before.numbers source)
    (put : after.numbers target <+~ moved ++ before.numbers target)
    (others : ∀ place, place ≠ source → place ≠ target → after.numbers place = before.numbers place) :
    Flows before after :=
  .move different taken put fun place notSource notTarget => by rw [others place notSource notTarget]

theorem flows_works (accounted : Accounted before) (worked : Works setup before worker fails after) :
    Flows before after := by
  cases worked with
  | taken here | decoded here | filled here => exact flows_setWorker rfl rfl (by rw [here]; rfl)
  | signed here => exact flows_setWorker (numbers_congr rfl rfl rfl) rfl (by simp only [here]; rfl)
  | abandoned idle =>
      refine flows_setWorker rfl rfl ?_
      obtain rfl | rfl := idle <;> exact nil_subperm
  | @acknowledged delivery chunk here =>
      have inHand : delivery ∈ (before.workers worker).pending := by simp [WorkerState.pending, here, WorkerPc.atHand]
      have member := (accounted.orderly worker).subset inHand
      refine flows_between (show Place.held worker ≠ .working worker from nofun) [delivery.number] ?_ ?_
        fun place notHeld notWorking => numbers_elsewhere notHeld notWorking
      · rw [numbers_held]
        exact ((perm_cons_erase member).map Request.number).symm.subperm
      · rw [numbers_working]
        exact (sublist_append_left _ _).subperm
  | @published delivery body here =>
      refine flows_between (show Place.working worker ≠ .replied from nofun) [delivery.number] ?_ ?_
        fun place notWorking notReplied => ?_
      · rw [numbers_working]
        simp only [State.numbers, here]
        rfl
      · change (before.replied ++ [Reply.mk delivery.number body]).map Reply.request <+~
          [delivery.number] ++ before.replied.map Reply.request
        rw [map_append]
        exact perm_append_comm.subperm
      · rw [numbers_of_held (by rfl) notWorking, numbers_publish notReplied]

omit [DecidableEq Worker] in
theorem flows_asks (asked : Asks setup before name after) : Flows before after := by
  cases asked with
  | lost => exact flows_of_eq (numbers_congr rfl rfl rfl)
  | @published body here written =>
      have fresh : Fresh before { before with
          received := before.received ++ [name]
          signQueue := before.signQueue ++ [{ number := before.received.length, body }]
          asked := before.asked ++ [{ number := before.received.length, body }] } before.received.length :=
        ⟨rfl, by simp⟩
      refine @Flow.enter _ _ _ _ _ .queued _ fresh ?_ fun place notQueued => ?_
      · change (before.signQueue ++ [Request.mk before.received.length body]).map Request.number <+~
          before.received.length :: before.signQueue.map Request.number
        rw [map_append]
        exact perm_append_comm.subperm
      · exact (numbers_requeue notQueued _) ▸ .refl _

theorem flows_moves (accounted : Accounted before) (moved : Moves setup before label after) : Flows before after := by
  cases moved with
  | interest asked => exact flows_asks asked
  | deliverReply => exact flows_of_eq (numbers_congr rfl rfl rfl)
  | worker worked => exact flows_works accounted worked
  | server served => cases served <;> exact flows_of_eq (numbers_congr rfl rfl rfl)
  | @deliverRequest worker index request found =>
      obtain ⟨inside, rfl⟩ := List.getElem?_eq_some_iff.mp found
      refine flows_between (show Place.queued ≠ .held worker from nofun) [before.signQueue[index].number] ?_ ?_
        fun place notQueued notHeld => ?_
      · exact ((getElem_cons_eraseIdx_perm inside).map Request.number).subperm
      · rw [numbers_held, map_append]
        exact perm_append_comm.subperm
      · rw [numbers_of_working (by rfl) notHeld, numbers_requeue notQueued]
  | @stop worker =>
      have different : Place.held worker ≠ .queued := nofun
      refine @Flow.move _ _ _ _ _ _ _ (before.numbers (.held worker)) different ?_ ?_ fun place notHeld notQueued => ?_
      · rw [numbers_held, map_nil, append_nil]
      · change (before.signQueue ++ (before.workers worker).unacknowledged).map Request.number <+~
          (before.workers worker).unacknowledged.map Request.number ++ before.signQueue.map Request.number
        rw [map_append]
        exact perm_append_comm.subperm
      · by_cases isWorking : place = .working worker
        · subst isWorking
          rw [numbers_working]
          exact nil_subperm
        · rw [numbers_elsewhere notHeld isWorking, numbers_requeue notQueued]

/-! ## Every step keeps the account -/

omit [DecidableEq Worker] in
theorem deliveries_pending (here : WorkerState) : here.deliveries <+ here.pending := sublist_append_right _ _

theorem orderly_works (orderly : ∀ worker, (before.workers worker).Orderly)
    (worked : Works setup before worker fails after) : ∀ worker, (after.workers worker).Orderly := by
  have earlier := orderly worker
  have taken := (deliveries_pending _).trans earlier
  cases worked with
  | taken here found =>
      apply forall_setWorker (fun _ => WorkerState.Orderly) orderly
      simpa only [WorkerState.Orderly, WorkerState.pending, here, found, WorkerPc.atHand, nil_append,
        singleton_append] using earlier
  | decoded here =>
      apply forall_setWorker (fun _ => WorkerState.Orderly) orderly
      simpa only [WorkerState.Orderly, WorkerState.pending, here, WorkerPc.atHand] using earlier
  | @acknowledged delivery chunk here =>
      apply forall_setWorker (fun _ => WorkerState.Orderly) orderly
      have others := earlier.erase delivery
      simpa only [WorkerState.Orderly, WorkerState.pending, here, WorkerPc.atHand, singleton_append, erase_cons_head,
        nil_append] using others
  | filled | signed | published => exact forall_setWorker (fun _ => WorkerState.Orderly) orderly taken
  | abandoned idle =>
      apply forall_setWorker (fun _ => WorkerState.Orderly) orderly
      obtain rfl | rfl := idle <;> exact taken

theorem orderly_moves (orderly : ∀ worker, (before.workers worker).Orderly) (moved : Moves setup before label after) :
    ∀ worker, (after.workers worker).Orderly := by
  cases moved with
  | interest asked => cases asked <;> exact orderly
  | deliverReply => exact orderly
  | server served => cases served <;> exact orderly
  | worker worked => exact orderly_works orderly worked
  | stop => exact forall_setWorker (fun _ => WorkerState.Orderly) orderly .slnil
  | @deliverRequest worker index request found =>
      apply forall_setWorker (fun _ => WorkerState.Orderly) orderly
      have longer := (orderly worker).append_right [request]
      simpa only [WorkerState.Orderly, WorkerState.pending, append_assoc] using longer

/-- Nobody holds a request that was not asked. -/
theorem asked_moves (queued : before.signQueue ⊆ before.asked)
    (held : ∀ worker, (before.workers worker).unacknowledged ⊆ before.asked) (moved : Moves setup before label after) :
    after.signQueue ⊆ after.asked ∧ ∀ worker, (after.workers worker).unacknowledged ⊆ after.asked := by
  have still {next : WorkerState} {worker : Worker} {middle : State Worker}
      (here : next.unacknowledged ⊆ before.asked) (same : middle.workers = before.workers) :
      ∀ other, ((middle.setWorker worker next).workers other).unacknowledged ⊆ before.asked :=
    forall_setWorker (fun _ here => here.unacknowledged ⊆ before.asked) (same ▸ held) here
  cases moved with
  | interest asked =>
      cases asked with
      | lost => exact ⟨queued, held⟩
      | published =>
          exact ⟨append_subset.mpr ⟨Subset.trans queued (subset_append_left _ _), subset_append_right _ _⟩,
            fun worker => Subset.trans (held worker) (subset_append_left _ _)⟩
  | deliverReply => exact ⟨queued, held⟩
  | server served => cases served <;> exact ⟨queued, held⟩
  | worker worked =>
      cases worked with
      | acknowledged => exact ⟨queued, still (Subset.trans erase_subset (held _)) rfl⟩
      | taken | decoded | filled | signed | published | abandoned => exact ⟨queued, still (held _) rfl⟩
  | stop => exact ⟨append_subset.mpr ⟨queued, held _⟩, still (nil_subset _) rfl⟩
  | deliverRequest found =>
      have request := queued (mem_of_getElem? found)
      refine ⟨Subset.trans eraseIdx_subset queued, still (append_subset.mpr ⟨held _, ?_⟩) rfl⟩
      exact cons_subset.mpr ⟨request, nil_subset _⟩

theorem received_moves (moved : Moves setup before label after) : before.received <+: after.received := by
  cases moved with
  | interest asked => cases asked <;> exact prefix_append _ _
  | deliverRequest | deliverReply | stop => exact prefix_rfl
  | worker worked => cases worked <;> exact prefix_rfl
  | server served => cases served <;> exact prefix_rfl

theorem accounted_moves (accounted : Accounted before) (moved : Moves setup before label after) : Accounted after := by
  have flows := flows_moves accounted moved
  have longer := (received_moves moved).length_le
  obtain ⟨queued, held⟩ := asked_moves accounted.queued accounted.held moved
  refine ⟨flows.exclusive accounted.exclusive fun number fresh place member => ?_, fun place number member => ?_,
    orderly_moves accounted.orderly moved, queued, held⟩
  · have bound := accounted.known place number member
    obtain ⟨rfl, _⟩ := fresh
    omega
  · obtain ⟨earlier, member⟩ | ⟨rfl, more⟩ := flows.origin member
    · exact (accounted.known earlier number member).trans_le longer
    · exact more

theorem accounted_inductive : (pipeline setup).Inductive Accounted where
  start := fun start => start ▸ accounted_initial
  step := fun accounted moved => accounted_moves accounted (moves_of_step moved)

/-! ## Which requests are lost -/

/-- The request can still be delivered, or its reply has been published. -/
def Safe (state : State Worker) (request : Request) : Prop :=
  request ∈ state.signQueue ∨ (∃ worker, request ∈ (state.workers worker).unacknowledged) ∨
    ∃ reply ∈ state.replied, reply.request = request.number

def Kept (state : State Worker) : Prop := ∀ request ∈ state.asked, Safe state request

/-- The step is a `basicAck` of a worker. -/
def Acknowledges (state : State Worker) : Label Worker → Prop
  | .worker worker fails => fails = false ∧ ∃ delivery chunk, (state.workers worker).pc = .basicAck delivery chunk
  | .interest _ _ => False
  | .deliverRequest _ _ => False
  | .deliverReply _ => False
  | .stop _ => False
  | .server _ => False

section Safe

variable {request : Request}

theorem Safe.setWorker (safe : Safe state request)
    (keeps : (state.workers worker).unacknowledged ⊆ next.unacknowledged) :
    Safe (state.setWorker worker next) request := by
  obtain queued | ⟨holder, held⟩ | replied := safe
  · exact .inl queued
  · refine .inr (.inl ⟨holder, ?_⟩)
    by_cases same : holder = worker
    · subst same
      rw [setWorker_self]
      exact keeps held
    · rw [setWorker_of_ne same]
      exact held
  · exact .inr (.inr replied)

omit [DecidableEq Worker] in
theorem Safe.publish (safe : Safe state request) (reply : Reply) : Safe (state.publish reply) request := by
  obtain queued | held | ⟨answer, listed, same⟩ := safe
  · exact .inl queued
  · exact .inr (.inl held)
  · exact .inr (.inr ⟨answer, mem_append_left _ listed, same⟩)

theorem safe_works (safe : Safe before request) (worked : Works setup before worker fails after)
    (busy : ¬Acknowledges before (.worker worker fails)) : Safe after request := by
  cases worked with
  | acknowledged here passes => exact absurd ⟨passes, _, _, here⟩ busy
  | published => exact (safe.publish _).setWorker (Subset.refl _)
  | taken | decoded | filled | signed | abandoned => exact Safe.setWorker safe (Subset.refl _)

theorem safe_moves (safe : Safe before request) (moved : Moves setup before label after)
    (busy : ¬Acknowledges before label) : Safe after request := by
  cases moved with
  | interest asked =>
      cases asked with
      | lost => exact safe
      | published => exact safe.imp_left (mem_append_left _)
  | deliverReply => exact safe
  | server served => cases served <;> exact safe
  | worker worked => exact safe_works safe worked busy
  | @stop worker =>
      obtain queued | ⟨holder, held⟩ | replied := safe
      · exact .inl (mem_append_left _ queued)
      · by_cases same : holder = worker
        · subst same
          exact .inl (mem_append_right _ held)
        · refine .inr (.inl ⟨holder, ?_⟩)
          rw [setWorker_of_ne same]
          exact held
      · exact .inr (.inr replied)
  | @deliverRequest worker index delivered found =>
      obtain ⟨inside, rfl⟩ := List.getElem?_eq_some_iff.mp found
      obtain queued | elsewhere := safe
      · obtain rfl | waits := mem_cons.mp ((getElem_cons_eraseIdx_perm inside).symm.subset queued)
        · refine .inr (.inl ⟨worker, ?_⟩)
          rw [setWorker_self]
          exact mem_append_right _ (mem_singleton_self _)
        · exact .inl waits
      · have waits : Safe { before with signQueue := before.signQueue.eraseIdx index } request := .inr elsewhere
        exact waits.setWorker (subset_append_left _ _)

end Safe

/-- An acknowledged request is in the hands of one worker alone. -/
theorem lost_at_acknowledge (accounted : Accounted before) (busy : Acknowledges before label)
    (moved : step setup before label = some after) : ¬Kept after := by
  cases label with
  | worker worker fails =>
      obtain ⟨rfl, delivery, chunk, here⟩ := busy
      have acknowledged : step setup before (.worker worker false) = some (before.setWorker worker
          { before.workers worker with
            pc := .setContent delivery chunk
            unacknowledged := (before.workers worker).unacknowledged.erase delivery }) := by
        simp only [step, workerStep, here]
        rfl
      obtain rfl := Option.some.inj (acknowledged.symm.trans moved)
      have inHand : delivery ∈ (before.workers worker).pending := by simp [WorkerState.pending, here, WorkerPc.atHand]
      have member := (accounted.orderly worker).subset inHand
      have number : delivery.number ∈ before.numbers (.held worker) := mem_map_of_mem member
      have once : (before.workers worker).unacknowledged.Nodup := (accounted.exclusive.nodup (.held worker)).of_map _
      intro kept
      obtain queued | ⟨holder, held⟩ | ⟨reply, replied, same⟩ := kept delivery (accounted.held worker member)
      · have there : delivery.number ∈ before.numbers .queued := mem_map_of_mem queued
        cases accounted.exclusive.apart number there
      · by_cases same : holder = worker
        · subst same
          rw [setWorker_self] at held
          exact (once.not_mem_erase held).elim
        · rw [setWorker_of_ne same] at held
          have there : delivery.number ∈ before.numbers (.held holder) := mem_map_of_mem held
          cases accounted.exclusive.apart number there
          exact same rfl
      · have there : delivery.number ∈ before.numbers .replied := mem_map.mpr ⟨reply, replied, same⟩
        cases accounted.exclusive.apart number there
  | interest | deliverRequest | deliverReply | stop | server => exact busy.elim

theorem asked_origin {request : Request} (moved : Moves setup before label after) (asked : request ∈ after.asked) :
    request ∈ before.asked ∨ request ∈ after.signQueue := by
  cases moved with
  | interest asks =>
      cases asks with
      | lost => exact .inl asked
      | published => exact (mem_append.mp asked).imp_right (mem_append_right _)
  | deliverRequest | deliverReply | stop => exact .inl asked
  | worker worked => cases worked <;> exact .inl asked
  | server served => cases served <;> exact .inl asked

theorem kept_step (accounted : Accounted before) (kept : Kept before) (moved : step setup before label = some after) :
    Kept after ↔ ¬Acknowledges before label := by
  by_cases busy : Acknowledges before label
  · exact iff_of_false (lost_at_acknowledge accounted busy moved) (not_not_intro busy)
  · refine iff_of_true (fun request asked => ?_) busy
    have moved := moves_of_step moved
    obtain earlier | queued := asked_origin moved asked
    · exact safe_moves (kept request earlier) moved busy
    · exact .inl queued

/-- In every run, whatever fails and whoever stops, no request is lost exactly
as long as no worker acknowledges one: it does so before it signs and publishes. -/
theorem requests_kept_iff (setup : Setup Worker) (labels : List (Label Worker)) :
    (pipeline setup).Throughout Kept (.initial setup) labels ↔
      (pipeline setup).Along (fun state label => ¬Acknowledges state label) (.initial setup) labels :=
  throughout_iff_along
    (fun accounted kept moved => ⟨accounted_inductive.step accounted moved, kept_step accounted kept moved⟩)
    accounted_initial nofun labels

/-! ## A lost request -/

def sampleSetup : Setup Unit where
  jndn := .reference
  server := sampleServer
  keyChain _ := sampleKeyChain
  file _ := sampleFile
  certificateName := SerializableData.sampleName

/-- The server gets an Interest, and the worker has the request decoded, acknowledged and filled. -/
def sampleAsk : List (Label Unit) :=
  [.server false, .server false, .interest SerializableData.sampleName false, .deliverRequest () 0, .worker () false,
    .worker () false, .worker () false, .worker () false]

def sampleRequest : Request where
  number := 0
  body := SerializableData.interestLayout .reference SerializableData.sampleName 2

/-- `sign` throws, and the worker goes on with the next delivery: the request
is nowhere, and no reply was published. -/
theorem request_lost :
    ∃ state, (pipeline sampleSetup).run (.initial sampleSetup) (sampleAsk ++ [.worker () true]) = some state ∧
      (state.workers ()).pc = .nextDelivery ∧ state.asked = [sampleRequest] ∧ ¬Safe state sampleRequest ∧
      ¬(pipeline sampleSetup).Throughout Kept (.initial sampleSetup) (sampleAsk ++ [.worker () true]) := by
  have ran : ∃ state, (pipeline sampleSetup).run (.initial sampleSetup) (sampleAsk ++ [.worker () true]) = some state ∧
      (state.workers ()).pc = .nextDelivery ∧ state.asked = [sampleRequest] ∧ state.signQueue = [] ∧
      (state.workers ()).unacknowledged = [] ∧ state.replied = [] := ⟨_, rfl, rfl, rfl, rfl, rfl, rfl⟩
  obtain ⟨state, ran, idle, asked, queued, held, replied⟩ := ran
  have lost : ¬Safe state sampleRequest := by
    intro safe
    obtain member | ⟨_, member⟩ | ⟨_, member, _⟩ := safe
    · simp [queued] at member
    · simp [held] at member
    · simp [replied] at member
  refine ⟨state, ran, idle, asked, lost, fun kept => lost (kept.run ran _ ?_)⟩
  simp [asked]

end Ndnperf.RabbitMQ.Pipeline

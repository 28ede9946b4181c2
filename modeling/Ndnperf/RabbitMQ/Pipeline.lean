import Mathlib.Logic.Function.Basic
import Ndnperf.Library.Transition
import Ndnperf.RabbitMQ.Signing

namespace Ndnperf.RabbitMQ.Pipeline

open Ndn Java Library.Transition SerializableData

/-! The server, any number of workers and the two queues between them, each
party taking one statement of its loop at a time and in any order. -/

/-- A message of `SignQueue`; its number stands for the delivery tag. -/
structure Request where
  number : Nat
  body : Bytes
deriving DecidableEq, Repr

/-- A message of `ReturnQueue`, with the number of the request it was made for. -/
structure Reply where
  request : Nat
  body : Bytes
deriving DecidableEq, Repr

/-- The next statement of `RabbitMQWorker.run`. An exception that is not caught
ends the loop and leaves the connection open; stopping closes it. -/
inductive WorkerPc where
  | nextDelivery
  | decode (delivery : Request)
  | basicAck (delivery : Request) (chunk : Int)
  | setContent (delivery : Request) (chunk : Int)
  | sign (delivery : Request)
  | basicPublish (delivery : Request)
  | ended
  | stopped
deriving DecidableEq, Repr

/-- `deliveries` is what the broker has pushed to the consumer and
`nextDelivery` has not yet returned. -/
structure WorkerState where
  pc : WorkerPc
  deliveries : List Request
  unacknowledged : List Request
  data : Data

/-- The next statement of `RabbitMQServer.run`, with the count that is left once
the delivery at hand is done. -/
inductive ServerPc where
  | queueDeclare
  | whileCount (count : Nat)
  | decode (count : Nat) (delivery : Reply)
  | putData (count : Nat) (delivery : Reply)
  | basicAck (count : Nat) (delivery : Reply)
  | processEvents
  | ended
deriving DecidableEq, Repr

/-- The last five fields record what has happened: the Interests received, the
messages published to either queue, the Data objects signed and the Data put on
the face with the requests they answer. -/
structure State (Worker : Type) where
  pc : ServerPc
  data : Data
  deliveries : List Reply
  unacknowledged : List Reply
  signQueue : List Request
  returnQueue : List Reply
  workers : Worker → WorkerState
  received : List Name
  asked : List Request
  signed : List (Worker × Data)
  replied : List Reply
  sent : List (Nat × Data)

/-- What the parties were started with: each worker reads its own files. -/
structure Setup (Worker : Type) where
  jndn : Jndn
  server : RabbitMQServer
  keyChain : Worker → KeyChain
  file : Worker → Text
  certificateName : Name

/-- A message pushed by the broker is named by its position in the queue: the
broker may take any. -/
inductive Label (Worker : Type) where
  | interest (name : Name) (fails : Bool)
  | deliverRequest (worker : Worker) (index : Nat)
  | deliverReply (index : Nat)
  | worker (worker : Worker) (fails : Bool)
  | stop (worker : Worker)
  | server (fails : Bool)

/-- `channel.basicQos(2)` -/
def prefetch : Nat := 2

variable {Worker : Type}

def State.initial (setup : Setup Worker) : State Worker where
  pc := .queueDeclare
  data := setup.server.dataModel
  deliveries := []
  unacknowledged := []
  signQueue := []
  returnQueue := []
  workers _ := { pc := .nextDelivery, deliveries := [], unacknowledged := [], data := Data.fresh }
  received := []
  asked := []
  signed := []
  replied := []
  sent := []

variable [DecidableEq Worker]

def State.setWorker (state : State Worker) (worker : Worker) (next : WorkerState) : State Worker :=
  { state with workers := Function.update state.workers worker next }

omit [DecidableEq Worker] in
def State.publish (state : State Worker) (reply : Reply) : State Worker :=
  { state with returnQueue := state.returnQueue ++ [reply], replied := state.replied ++ [reply] }

variable (setup : Setup Worker) (state : State Worker)

/-- The last statement of a worker, on the reply that was encoded. -/
def publishStep (worker : Worker) (fails : Bool) (delivery : Request) :
    Except Library.Wire.Fault Bytes → Option (State Worker)
  | .ok body =>
      if fails then some (state.setWorker worker { state.workers worker with pc := .nextDelivery })
      else some ((state.publish { request := delivery.number, body }).setWorker worker
        { state.workers worker with pc := .nextDelivery })
  | .error _ => some (state.setWorker worker { state.workers worker with pc := .ended })

/-- One statement of a worker, which throws a checked exception where `fails` and the statement can. -/
def workerStep (worker : Worker) (fails : Bool) : Option (State Worker) :=
  let here := state.workers worker
  match here.pc with
  | .nextDelivery =>
      match here.deliveries with
      | [] => none
      | delivery :: rest => some (state.setWorker worker { here with pc := .decode delivery, deliveries := rest })
  | .decode delivery =>
      match deserializeInterest setup.jndn delivery.body here.data with
      | .ok (chunk, data) => some (state.setWorker worker { here with pc := .basicAck delivery chunk, data })
      | .error _ => some (state.setWorker worker { here with pc := .ended })
  | .basicAck delivery chunk =>
      if fails then some (state.setWorker worker { here with pc := .nextDelivery })
      else some (state.setWorker worker
        { here with pc := .setContent delivery chunk, unacknowledged := here.unacknowledged.erase delivery })
  | .setContent delivery chunk =>
      match substring (setup.file worker) chunk with
      | .ok content => some (state.setWorker worker
          { here with pc := .sign delivery, data := { here.data with content := some (setup.jndn.blob content) } })
      | .error _ => some (state.setWorker worker { here with pc := .ended })
  | .sign delivery =>
      if fails then some (state.setWorker worker { here with pc := .nextDelivery })
      else
        let signed := (setup.keyChain worker).sign here.data setup.certificateName
        some ({ state with signed := state.signed ++ [(worker, signed)] }.setWorker worker
          { here with pc := .basicPublish delivery, data := signed })
  | .basicPublish delivery => publishStep state worker fails delivery (serializeSignature setup.jndn here.data)
  | .ended => none
  | .stopped => none

omit [DecidableEq Worker] in
/-- One statement of the server. -/
def serverStep (fails : Bool) : Option (State Worker) :=
  match state.pc with
  | .queueDeclare =>
      if fails then some { state with pc := .queueDeclare }
      else some { state with pc := .whileCount state.returnQueue.length }
  | .whileCount 0 => some { state with pc := .processEvents }
  | .whileCount (count + 1) =>
      match state.deliveries with
      | [] => none
      | delivery :: rest => some { state with pc := .decode count delivery, deliveries := rest }
  | .decode count delivery =>
      match RabbitMQServer.receive setup.jndn delivery.body state.data with
      | .ok data => some { state with pc := .putData count delivery, data }
      | .error _ => some { state with pc := .ended }
  | .putData count delivery =>
      if fails then some { state with pc := .queueDeclare }
      else some { state with pc := .basicAck count delivery, sent := state.sent ++ [(delivery.request, state.data)] }
  | .basicAck count delivery =>
      if fails then some { state with pc := .queueDeclare }
      else some { state with pc := .whileCount count, unacknowledged := state.unacknowledged.erase delivery }
  | .processEvents => some { state with pc := .queueDeclare }
  | .ended => none

omit [DecidableEq Worker] in
/-- `onInterest`, called by `processEvents`; the exception of `basicPublish` is caught there. -/
def interestStep (name : Name) (fails : Bool) : Option (State Worker) :=
  if state.pc = .processEvents then
    match setup.server.onInterest setup.jndn name with
    | .ok body =>
        if fails then some { state with received := state.received ++ [name] }
        else
          let request : Request := { number := state.received.length, body }
          some { state with
            received := state.received ++ [name]
            signQueue := state.signQueue ++ [request]
            asked := state.asked ++ [request] }
    | .error _ => some { state with received := state.received ++ [name], pc := .ended }
  else none

def deliverRequest (worker : Worker) (index : Nat) : Option (State Worker) :=
  let here := state.workers worker
  match state.signQueue[index]? with
  | none => none
  | some request =>
      if here.pc ≠ .stopped ∧ here.unacknowledged.length < prefetch then
        some ({ state with signQueue := state.signQueue.eraseIdx index }.setWorker worker { here with
          deliveries := here.deliveries ++ [request]
          unacknowledged := here.unacknowledged ++ [request] })
      else none

omit [DecidableEq Worker] in
def deliverReply (index : Nat) : Option (State Worker) :=
  match state.returnQueue[index]? with
  | none => none
  | some reply =>
      if state.unacknowledged.length < prefetch then some { state with
        returnQueue := state.returnQueue.eraseIdx index
        deliveries := state.deliveries ++ [reply]
        unacknowledged := state.unacknowledged ++ [reply] }
      else none

/-- A worker stops between two statements; the broker takes back what it has not acknowledged. -/
def stop (worker : Worker) : Option (State Worker) :=
  let here := state.workers worker
  if here.pc = .stopped then none
  else some ({ state with signQueue := state.signQueue ++ here.unacknowledged }.setWorker worker
    { here with pc := .stopped, deliveries := [], unacknowledged := [] })

def step (state : State Worker) : Label Worker → Option (State Worker)
  | .interest name fails => interestStep setup state name fails
  | .deliverRequest worker index => deliverRequest state worker index
  | .deliverReply index => deliverReply state index
  | .worker worker fails => workerStep setup state worker fails
  | .stop worker => stop state worker
  | .server fails => serverStep setup state fails

def pipeline : System (State Worker) (Label Worker) where
  start state := state = .initial setup
  step := step setup

/-! ## What one step can do -/

section Steps

variable {setup : Setup Worker} {state after : State Worker} {worker : Worker} {fails : Bool} {name : Name}
  {index : Nat}

/-- The statements of a worker. One that throws leaves everything but the place
in the loop as it was. -/
inductive Works (setup : Setup Worker) (state : State Worker) (worker : Worker) (fails : Bool) :
    State Worker → Prop where
  | taken {delivery : Request} {rest : List Request} (here : (state.workers worker).pc = .nextDelivery)
      (found : (state.workers worker).deliveries = delivery :: rest) :
      Works setup state worker fails
        (state.setWorker worker { state.workers worker with pc := .decode delivery, deliveries := rest })
  | decoded {delivery : Request} {chunk : Int} {data : Data} (here : (state.workers worker).pc = .decode delivery)
      (read : deserializeInterest setup.jndn delivery.body (state.workers worker).data = .ok (chunk, data)) :
      Works setup state worker fails
        (state.setWorker worker { state.workers worker with pc := .basicAck delivery chunk, data })
  | acknowledged {delivery : Request} {chunk : Int} (here : (state.workers worker).pc = .basicAck delivery chunk)
      (passes : fails = false) :
      Works setup state worker fails (state.setWorker worker { state.workers worker with
        pc := .setContent delivery chunk
        unacknowledged := (state.workers worker).unacknowledged.erase delivery })
  | filled {delivery : Request} {chunk : Int} {content : Text}
      (here : (state.workers worker).pc = .setContent delivery chunk)
      (cut : substring (setup.file worker) chunk = .ok content) :
      Works setup state worker fails (state.setWorker worker { state.workers worker with
        pc := .sign delivery
        data := { (state.workers worker).data with content := some (setup.jndn.blob content) } })
  | signed {delivery : Request} {data : Data} (here : (state.workers worker).pc = .sign delivery)
      (computed : data = (setup.keyChain worker).sign (state.workers worker).data setup.certificateName) :
      Works setup state worker fails ({ state with signed := state.signed ++ [(worker, data)] }.setWorker worker
        { state.workers worker with pc := .basicPublish delivery, data })
  | published {delivery : Request} {body : Bytes} (here : (state.workers worker).pc = .basicPublish delivery)
      (written : serializeSignature setup.jndn (state.workers worker).data = .ok body) :
      Works setup state worker fails ((state.publish { request := delivery.number, body }).setWorker worker
        { state.workers worker with pc := .nextDelivery })
  | abandoned {pc : WorkerPc} (idle : pc = .nextDelivery ∨ pc = .ended) :
      Works setup state worker fails (state.setWorker worker { state.workers worker with pc })

theorem works_of_publishStep {delivery : Request} {outcome : Except Library.Wire.Fault Bytes}
    (here : (state.workers worker).pc = .basicPublish delivery)
    (written : serializeSignature setup.jndn (state.workers worker).data = outcome)
    (moved : publishStep state worker fails delivery outcome = some after) : Works setup state worker fails after := by
  cases outcome with
  | error fault => exact Option.some.inj moved ▸ .abandoned (.inr rfl)
  | ok body =>
      simp only [publishStep] at moved
      split at moved
      · exact Option.some.inj moved ▸ .abandoned (.inl rfl)
      · exact Option.some.inj moved ▸ .published here written

theorem works_of_workerStep (moved : workerStep setup state worker fails = some after) :
    Works setup state worker fails after := by
  cases here : (state.workers worker).pc with
  | nextDelivery =>
      simp only [workerStep, here] at moved
      split at moved <;> rename_i found
      · cases moved
      · exact Option.some.inj moved ▸ .taken here found
  | decode delivery =>
      simp only [workerStep, here] at moved
      split at moved <;> rename_i read
      · exact Option.some.inj moved ▸ .decoded here read
      · exact Option.some.inj moved ▸ .abandoned (.inr rfl)
  | basicAck delivery chunk =>
      simp only [workerStep, here] at moved
      split at moved
      · exact Option.some.inj moved ▸ .abandoned (.inl rfl)
      · rename_i passes
        exact Option.some.inj moved ▸ .acknowledged here (Bool.eq_false_iff.mpr passes)
  | setContent delivery chunk =>
      simp only [workerStep, here] at moved
      split at moved <;> rename_i cut
      · exact Option.some.inj moved ▸ .filled here cut
      · exact Option.some.inj moved ▸ .abandoned (.inr rfl)
  | sign delivery =>
      simp only [workerStep, here] at moved
      split at moved
      · exact Option.some.inj moved ▸ .abandoned (.inl rfl)
      · exact Option.some.inj moved ▸ .signed here rfl
  | basicPublish delivery =>
      simp only [workerStep, here] at moved
      exact works_of_publishStep here rfl moved
  | ended | stopped => simp only [workerStep, here, reduceCtorEq] at moved

/-- The statements of the server, with the reason where one is given up. -/
inductive Serves (setup : Setup Worker) (state : State Worker) (fails : Bool) : State Worker → Prop where
  | declared (here : state.pc = .queueDeclare) :
      Serves setup state fails { state with pc := .whileCount state.returnQueue.length }
  | drained (here : state.pc = .whileCount 0) : Serves setup state fails { state with pc := .processEvents }
  | taken {count : Nat} {delivery : Reply} {rest : List Reply} (here : state.pc = .whileCount (count + 1))
      (found : state.deliveries = delivery :: rest) :
      Serves setup state fails { state with pc := .decode count delivery, deliveries := rest }
  | decoded {count : Nat} {delivery : Reply} {data : Data} (here : state.pc = .decode count delivery)
      (read : RabbitMQServer.receive setup.jndn delivery.body state.data = .ok data) :
      Serves setup state fails { state with pc := .putData count delivery, data }
  | put {count : Nat} {delivery : Reply} (here : state.pc = .putData count delivery) :
      Serves setup state fails
        { state with pc := .basicAck count delivery, sent := state.sent ++ [(delivery.request, state.data)] }
  | acknowledged {count : Nat} {delivery : Reply} (here : state.pc = .basicAck count delivery) :
      Serves setup state fails
        { state with pc := .whileCount count, unacknowledged := state.unacknowledged.erase delivery }
  | processed (here : state.pc = .processEvents) : Serves setup state fails { state with pc := .queueDeclare }
  | failed (failing : fails = true) : Serves setup state fails { state with pc := .queueDeclare }
  | undecodable {count : Nat} {delivery : Reply} {fault : Fault} (here : state.pc = .decode count delivery)
      (read : RabbitMQServer.receive setup.jndn delivery.body state.data = .error fault) :
      Serves setup state fails { state with pc := .ended }

omit [DecidableEq Worker] in
theorem serves_of_serverStep (moved : serverStep setup state fails = some after) : Serves setup state fails after := by
  unfold serverStep at moved
  split at moved <;> rename_i here
  · split at moved <;> rename_i failing
    · exact Option.some.inj moved ▸ .failed failing
    · exact Option.some.inj moved ▸ .declared here
  · exact Option.some.inj moved ▸ .drained here
  · split at moved <;> rename_i found
    · cases moved
    · exact Option.some.inj moved ▸ .taken here found
  · split at moved <;> rename_i read
    · exact Option.some.inj moved ▸ .decoded here read
    · exact Option.some.inj moved ▸ .undecodable here read
  · split at moved <;> rename_i failing
    · exact Option.some.inj moved ▸ .failed failing
    · exact Option.some.inj moved ▸ .put here
  · split at moved <;> rename_i failing
    · exact Option.some.inj moved ▸ .failed failing
    · exact Option.some.inj moved ▸ .acknowledged here
  · exact Option.some.inj moved ▸ .processed here
  · cases moved

/-- An Interest becomes a request, or is lost with the exception of one of the two calls. -/
inductive Asks (setup : Setup Worker) (state : State Worker) (name : Name) : State Worker → Prop where
  | published {body : Bytes} (here : state.pc = .processEvents)
      (written : setup.server.onInterest setup.jndn name = .ok body) :
      Asks setup state name { state with
        received := state.received ++ [name]
        signQueue := state.signQueue ++ [{ number := state.received.length, body }]
        asked := state.asked ++ [{ number := state.received.length, body }] }
  | lost {pc : ServerPc} (here : state.pc = .processEvents) (left : pc = .processEvents ∨ pc = .ended) :
      Asks setup state name { state with received := state.received ++ [name], pc }

omit [DecidableEq Worker] in
theorem asks_of_interestStep (moved : interestStep setup state name fails = some after) :
    Asks setup state name after := by
  unfold interestStep at moved
  simp only [Option.ite_none_right_eq_some] at moved
  obtain ⟨here, moved⟩ := moved
  split at moved <;> rename_i written
  · split at moved
    · have lost : Asks setup state name { state with received := state.received ++ [name], pc := .processEvents } :=
        .lost here (.inl rfl)
      rw [← here] at lost
      exact Option.some.inj moved ▸ lost
    · exact Option.some.inj moved ▸ .published here written
  · exact Option.some.inj moved ▸ .lost here (.inr rfl)

end Steps

/-- A step of the whole. The messages are at some position of their queues. -/
inductive Moves (setup : Setup Worker) (state : State Worker) : Label Worker → State Worker → Prop where
  | interest {name : Name} {fails : Bool} {after : State Worker} (asked : Asks setup state name after) :
      Moves setup state (.interest name fails) after
  | deliverRequest {worker : Worker} {index : Nat} {request : Request} (found : state.signQueue[index]? = some request)
      (running : (state.workers worker).pc ≠ .stopped)
      (room : (state.workers worker).unacknowledged.length < prefetch) :
      Moves setup state (.deliverRequest worker index)
        ({ state with signQueue := state.signQueue.eraseIdx index }.setWorker worker { state.workers worker with
          deliveries := (state.workers worker).deliveries ++ [request]
          unacknowledged := (state.workers worker).unacknowledged ++ [request] })
  | deliverReply {index : Nat} {reply : Reply} (found : state.returnQueue[index]? = some reply)
      (room : state.unacknowledged.length < prefetch) :
      Moves setup state (.deliverReply index) { state with
        returnQueue := state.returnQueue.eraseIdx index
        deliveries := state.deliveries ++ [reply]
        unacknowledged := state.unacknowledged ++ [reply] }
  | worker {worker : Worker} {fails : Bool} {after : State Worker} (worked : Works setup state worker fails after) :
      Moves setup state (.worker worker fails) after
  | stop {worker : Worker} : Moves setup state (.stop worker)
      ({ state with signQueue := state.signQueue ++ (state.workers worker).unacknowledged }.setWorker worker
        { state.workers worker with pc := .stopped, deliveries := [], unacknowledged := [] })
  | server {fails : Bool} {after : State Worker} (served : Serves setup state fails after) :
      Moves setup state (.server fails) after

variable {setup state} in
theorem moves_of_step {label : Label Worker} {after : State Worker} (moved : step setup state label = some after) :
    Moves setup state label after := by
  cases label with
  | interest name fails =>
      have moved : interestStep setup state name fails = some after := moved
      exact .interest (asks_of_interestStep moved)
  | deliverRequest worker index =>
      simp only [step, deliverRequest] at moved
      split at moved <;> rename_i found
      · cases moved
      · simp only [Option.ite_none_right_eq_some, Option.some.injEq] at moved
        exact moved.2 ▸ .deliverRequest found moved.1.1 moved.1.2
  | deliverReply index =>
      simp only [step, deliverReply] at moved
      split at moved <;> rename_i found
      · cases moved
      · simp only [Option.ite_none_right_eq_some, Option.some.injEq] at moved
        exact moved.2 ▸ .deliverReply found moved.1
  | worker worker fails =>
      have moved : workerStep setup state worker fails = some after := moved
      exact .worker (works_of_workerStep moved)
  | stop worker =>
      simp only [step, stop, Option.ite_none_left_eq_some, Option.some.injEq] at moved
      exact moved.2 ▸ .stop
  | server fails =>
      have moved : serverStep setup state fails = some after := moved
      exact .server (serves_of_serverStep moved)

end Ndnperf.RabbitMQ.Pipeline

import Ndnperf.RabbitMQ.Replies

namespace Ndnperf.RabbitMQ.Pipeline

open Ndn Java Library.Transition Library.Transition.System Library.Outcome SerializableData List

variable {Worker : Type} [DecidableEq Worker] {setup : Setup Worker} {start state before after : State Worker}
  {worker : Worker} {label : Label Worker} {fails : Bool}

/-! ## One iteration of the server's loop -/

/-- The server is back at the head of its loop, or an exception has left it. -/
def ServerPc.Over (pc : ServerPc) : Prop := pc = .queueDeclare ∨ pc = .ended

/-- The states of the iteration that begins at `start`: the other parties and
the broker go on meanwhile, and no call of the server throws. -/
inductive Iteration (setup : Setup Worker) (start : State Worker) : State Worker → Prop where
  | declare {after : State Worker} (moved : step setup start (.server false) = some after) : Iteration setup start after
  | step {before after : State Worker} {label : Label Worker} (inside : Iteration setup start before)
      (running : ¬before.pc.Over) (quiet : label ≠ .server true) (moved : step setup before label = some after) :
      Iteration setup start after

/-- A step that the server or the broker takes to hand the server its replies. -/
def Label.Serving : Label Worker → Prop
  | .interest _ _ => False
  | .deliverRequest _ _ => False
  | .deliverReply _ => True
  | .worker _ _ => False
  | .stop _ => False
  | .server fails => fails = false

/-- The iteration is never over before it has put a Data on the face, and
wherever it is the server and the broker can bring it to its end. -/
structure PutsData (setup : Setup Worker) (start : State Worker) : Prop where
  sent : ∀ state, Iteration setup start state → state.pc.Over → start.sent.length < state.sent.length
  ends : ∀ state, Iteration setup start state →
    (pipeline setup).CanReach Label.Serving (fun after => after.pc.Over) state

/-! ## What holds during an iteration -/

/-- The deliveries that the loop has yet to take. -/
def ServerPc.left : ServerPc → Nat
  | .queueDeclare => 0
  | .whileCount count => count
  | .decode count _ => count
  | .putData count _ => count
  | .basicAck count _ => count
  | .processEvents => 0
  | .ended => 0

/-- How many statements are left, at most. -/
def ServerPc.rank : ServerPc → Nat
  | .queueDeclare => 0
  | .ended => 0
  | .processEvents => 1
  | .whileCount count => 4 * count + 2
  | .basicAck count _ => 4 * count + 3
  | .putData count _ => 4 * count + 4
  | .decode count _ => 4 * count + 5

/-- The statements that lead to `putData`. -/
def ServerPc.Unput : ServerPc → Prop
  | .queueDeclare => False
  | .whileCount count => 0 < count
  | .decode _ _ => True
  | .putData _ _ => True
  | .basicAck _ _ => False
  | .processEvents => False
  | .ended => False

structure Underway (start state : State Worker) : Prop where
  listed : Listed state
  room : ∃ stale < prefetch,
    state.unacknowledged.length = stale + state.pc.atHand.length + state.deliveries.length
  enough : state.pc.left ≤ state.deliveries.length + state.returnQueue.length
  kept : start.sent.length ≤ state.sent.length
  put : start.sent.length < state.sent.length ∨ state.pc.Unput

omit [DecidableEq Worker] in
theorem receive_listed (listed : Listed state) {count : Nat} {delivery : Reply}
    (here : state.pc = .decode count delivery) :
    ∃ data, RabbitMQServer.receive setup.jndn delivery.body state.data = .ok data := by
  have replied := listed.atHand (show delivery ∈ state.pc.atHand by simp [here, ServerPc.atHand])
  exact ⟨_, decoding_eq_ok.mpr (deserializeSignature_eq (listed.readable delivery replied) state.data)⟩

omit [DecidableEq Worker] in
theorem underway_serves (underway : Underway start before) (running : ¬before.pc.Over)
    (served : Serves setup before false after) : Underway start after := by
  have listed := listed_serves underway.listed served
  obtain ⟨stale, few, room⟩ := underway.room
  have enough := underway.enough
  have kept := underway.kept
  have put := underway.put
  cases served with
  | declared here => exact absurd (.inl here) running
  | failed failing => cases failing
  | undecodable here read =>
      obtain ⟨_, received⟩ := receive_listed underway.listed here
      cases received.symm.trans read
  | drained here | processed here =>
      rw [here] at room put
      exact ⟨listed, ⟨stale, few, room⟩, Nat.zero_le _, kept, put.imp_right (by simp [ServerPc.Unput])⟩
  | taken here found =>
      simp only [here, found, ServerPc.atHand, ServerPc.left, length_cons, length_nil] at room enough
      exact ⟨listed, ⟨stale, few, by simp only [ServerPc.atHand, length_cons, length_nil]; omega⟩,
        by simp only [ServerPc.left]; omega, kept, .inr trivial⟩
  | decoded here =>
      rw [here] at room enough
      exact ⟨listed, ⟨stale, few, room⟩, enough, kept, .inr trivial⟩
  | @put count delivery here =>
      rw [here] at room enough
      have more : start.sent.length < (before.sent ++ [(delivery.request, before.data)]).length := by
        rw [length_append, length_singleton]
        omega
      exact ⟨listed, ⟨stale, few, room⟩, enough, more.le, .inl more⟩
  | @acknowledged count delivery here =>
      have orderly := underway.listed.orderly
      rw [here] at orderly room enough put
      have member : delivery ∈ before.unacknowledged := orderly.subset mem_cons_self
      have shorter := length_erase_of_mem member
      simp only [ServerPc.atHand, length_cons, length_nil] at room
      refine ⟨listed, ⟨stale, few, ?_⟩, enough, kept, .inl (put.resolve_right id)⟩
      simp only [ServerPc.atHand, length_nil]
      omega

theorem underway_moves (underway : Underway start before) (running : ¬before.pc.Over) (quiet : label ≠ .server true)
    (moved : Moves setup before label after) : Underway start after := by
  have listed := listed_moves underway.listed moved
  obtain ⟨stale, few, room⟩ := underway.room
  have enough := underway.enough
  have put := underway.put
  cases moved with
  | interest asks =>
      cases asks with
      | published here => exact ⟨listed, ⟨stale, few, room⟩, enough, underway.kept, put⟩
      | lost here left =>
          rw [here] at room put
          obtain rfl | rfl := left
          · exact ⟨listed, ⟨stale, few, room⟩, Nat.zero_le _, underway.kept, put⟩
          · exact ⟨listed, ⟨stale, few, room⟩, Nat.zero_le _, underway.kept, put⟩
  | deliverRequest | stop => exact ⟨listed, ⟨stale, few, room⟩, enough, underway.kept, put⟩
  | deliverReply found free =>
      obtain ⟨inside, rfl⟩ := List.getElem?_eq_some_iff.mp found
      have shorter := length_eraseIdx_of_lt inside
      refine ⟨listed, ⟨stale, few, ?_⟩, ?_, underway.kept, put⟩
      · simp only [length_append, length_singleton]
        omega
      · simp only [length_append, length_singleton]
        omega
  | worker worked =>
      cases worked with
      | published =>
          refine ⟨listed, ⟨stale, few, room⟩, enough.trans ?_, underway.kept, put⟩
          simp only [State.setWorker, State.publish, length_append]
          omega
      | taken | decoded | acknowledged | filled | signed | abandoned =>
          exact ⟨listed, ⟨stale, few, room⟩, enough, underway.kept, put⟩
  | @server fails after served =>
      have passes : fails = false := Bool.eq_false_iff.mpr fun failing => quiet (failing ▸ rfl)
      subst passes
      exact underway_serves underway running served

/-! ## The end of an iteration -/

section Ends

/-- One statement of the server that brings the end closer. -/
theorem closer_by_server (underway : Underway start state) (running : ¬state.pc.Over)
    (moved : step setup state (.server false) = some after) (less : after.pc.rank < state.pc.rank) :
    (pipeline setup).CanReach Label.Serving (fun after => Underway start after ∧
      after.pc.rank < state.pc.rank) state := by
  have quiet : (.server false : Label Worker) ≠ .server true := by simp
  have next := underway_moves underway running quiet (moves_of_step moved)
  refine ⟨[.server false], after, ?_, run_cons.mpr ⟨after, moved, rfl⟩, next, less⟩
  intro label member
  obtain rfl := mem_singleton.mp member
  rfl

theorem closer_while {count : Nat} (underway : Underway start state) (here : state.pc = .whileCount (count + 1)) :
    (pipeline setup).CanReach Label.Serving (fun after => Underway start after ∧
      after.pc.rank < state.pc.rank) state := by
  have running : ¬state.pc.Over := by simp [ServerPc.Over, here]
  -- Something can be taken from the consumer, or pushed to it first.
  cases found : state.deliveries with
  | cons delivery rest =>
      have moved : step setup state (.server false) =
          some { state with pc := .decode count delivery, deliveries := rest } := by
        simp only [step, serverStep, here, found]
      exact closer_by_server underway running moved (by simp only [here, ServerPc.rank]; omega)
  | nil =>
      obtain ⟨stale, few, room⟩ := underway.room
      have enough := underway.enough
      simp only [here, found, ServerPc.left, ServerPc.atHand, length_nil] at room enough
      obtain ⟨reply, rest, waiting⟩ : ∃ reply rest, state.returnQueue = reply :: rest :=
        exists_cons_of_length_pos (by omega)
      have free : state.unacknowledged.length < prefetch := by omega
      have pushed : step setup state (.deliverReply 0) = some { state with
          returnQueue := rest
          deliveries := [reply]
          unacknowledged := state.unacknowledged ++ [reply] } := by
        simp only [step, deliverReply, waiting, getElem?_cons_zero, free, if_true, found,
          eraseIdx_cons_zero, nil_append]
      have quiet : (.deliverReply 0 : Label Worker) ≠ .server true := by simp
      have next := underway_moves underway running quiet (moves_of_step pushed)
      have moved : step setup { state with
          returnQueue := rest
          deliveries := [reply]
          unacknowledged := state.unacknowledged ++ [reply] } (.server false) = some { state with
            pc := .decode count reply
            returnQueue := rest
            deliveries := []
            unacknowledged := state.unacknowledged ++ [reply] } := by
        simp only [step, serverStep, here]
      obtain ⟨labels, after, chosen, ran, closer⟩ := closer_by_server next (by simpa using running) moved
        (by simp only [here, ServerPc.rank]; omega)
      refine ⟨.deliverReply 0 :: labels, after, ?_, run_cons.mpr ⟨_, pushed, ran⟩, closer⟩
      exact forall_mem_cons.mpr ⟨trivial, chosen⟩

theorem closer (underway : Underway start state) (running : ¬state.pc.Over) :
    (pipeline setup).CanReach Label.Serving (fun after => Underway start after ∧
      after.pc.rank < state.pc.rank) state := by
  cases here : state.pc with
  | queueDeclare => exact absurd (.inl here) running
  | ended => exact absurd (.inr here) running
  | processEvents =>
      rw [← here]
      have moved : step setup state (.server false) = some { state with pc := .queueDeclare } := by
        simp only [step, serverStep, here]
      exact closer_by_server underway running moved (by simp only [here, ServerPc.rank]; omega)
  | basicAck count delivery =>
      rw [← here]
      have moved : step setup state (.server false) = some { state with
          pc := .whileCount count
          unacknowledged := state.unacknowledged.erase delivery } := by
        simp only [step, serverStep, here]
        rfl
      exact closer_by_server underway running moved (by simp only [here, ServerPc.rank]; omega)
  | putData count delivery =>
      rw [← here]
      have moved : step setup state (.server false) = some { state with
          pc := .basicAck count delivery
          sent := state.sent ++ [(delivery.request, state.data)] } := by
        simp only [step, serverStep, here]
        rfl
      exact closer_by_server underway running moved (by simp only [here, ServerPc.rank]; omega)
  | decode count delivery =>
      rw [← here]
      obtain ⟨data, read⟩ := @receive_listed Worker setup state underway.listed count delivery here
      have moved : step setup state (.server false) = some { state with pc := .putData count delivery, data } := by
        simp only [step, serverStep, here, read]
      exact closer_by_server underway running moved (by simp only [here, ServerPc.rank]; omega)
  | whileCount count =>
      cases count with
      | succ count => exact here ▸ closer_while underway here
      | zero =>
          rw [← here]
          have moved : step setup state (.server false) = some { state with pc := .processEvents } := by
            simp only [step, serverStep, here]
          exact closer_by_server underway running moved (by simp only [here, ServerPc.rank]; omega)

theorem underway_ends (underway : Underway start state) :
    (pipeline setup).CanReach Label.Serving (fun after => after.pc.Over) state :=
  canReach_of_measure (fun state => state.pc.rank) closer underway

end Ends

/-! ## When an iteration puts a Data on the face -/

theorem prefetch_inductive :
    (pipeline setup).Inductive fun state : State Worker => state.unacknowledged.length ≤ prefetch where
  start := fun start => start ▸ Nat.zero_le _
  step := fun {before} _ _ few moved => by
    cases moves_of_step moved with
    | interest asks => cases asks <;> exact few
    | deliverRequest | stop => exact few
    | deliverReply found free =>
        rw [length_append]
        exact free
    | worker worked => cases worked <;> exact few
    | server served =>
        cases served with
        | acknowledged => exact (length_erase_le).trans few
        | declared | drained | taken | decoded | put | processed | failed | undecodable => exact few

omit [DecidableEq Worker] in
/-- What of ReturnQueue the iteration can count on. -/
theorem underway_declared (listed : Listed start) (few : start.unacknowledged.length ≤ prefetch)
    (here : start.pc = .queueDeclare) (ready : start.returnQueue ≠ [])
    (free : start.deliveries ≠ [] ∨ start.unacknowledged.length < prefetch) :
    Underway start { start with pc := .whileCount start.returnQueue.length } := by
  have orderly := listed.orderly
  rw [here] at orderly
  have held : start.deliveries.length ≤ start.unacknowledged.length := orderly.length_le
  refine ⟨⟨listed.waiting, listed.delivered, nil_subset _, orderly, listed.readable⟩,
    ⟨start.unacknowledged.length - start.deliveries.length, ?_, ?_⟩, Nat.le_add_left _ _, le_rfl,
    .inr (length_pos_iff.mpr ready)⟩
  · simp only [prefetch] at few free ⊢
    obtain busy | free := free
    · have delivered := length_pos_iff.mpr busy
      omega
    · omega
  · simp only [ServerPc.atHand, length_nil]
    omega

theorem iteration_underway (declared : Underway start { start with pc := .whileCount start.returnQueue.length })
    (here : start.pc = .queueDeclare) (inside : Iteration setup start state) : Underway start state := by
  induction inside with
  | declare moved =>
      simp only [step, serverStep, here] at moved
      exact Option.some.inj moved ▸ declared
  | step _ running quiet moved ih => exact underway_moves ih running quiet (moves_of_step moved)

theorem iteration_declared (here : start.pc = .queueDeclare) :
    Iteration setup start { start with pc := .whileCount start.returnQueue.length } := by
  refine .declare ?_
  simp only [step, serverStep, here]
  rfl

/-- Nothing is counted, and the iteration goes by. -/
theorem idle_iteration (here : start.pc = .queueDeclare) (empty : start.returnQueue = []) :
    Iteration setup start { start with pc := .queueDeclare } := by
  have quiet : (.server false : Label Worker) ≠ .server true := by simp
  have declared : Iteration setup start { start with pc := .whileCount start.returnQueue.length } :=
    iteration_declared here
  have none : start.returnQueue.length = 0 := by rw [empty]; rfl
  rw [none] at declared
  have drained : Iteration setup start { start with pc := .processEvents } :=
    .step declared (by simp [ServerPc.Over]) quiet rfl
  exact .step drained (by simp [ServerPc.Over]) quiet rfl

/-- Two deliveries that were never acknowledged keep the broker from pushing a third. -/
theorem blocked_iteration {count : Nat} (here : state.pc = .whileCount (count + 1)) (none : state.deliveries = [])
    (full : ¬state.unacknowledged.length < prefetch) :
    ¬(pipeline setup).CanReach Label.Serving (fun after => after.pc.Over) state := by
  intro reaches
  obtain ⟨labels, after, chosen, ran, ended⟩ := reaches
  cases labels with
  | nil =>
      obtain rfl := Option.some.inj ran
      simp [here, ServerPc.Over] at ended
  | cons label rest =>
      obtain ⟨middle, moved, _⟩ := run_cons.mp ran
      have serving := chosen label mem_cons_self
      cases moves_of_step moved with
      | deliverReply found free => exact full free
      | server served =>
          cases served with
          | failed failing => cases serving.symm.trans failing
          | taken here' found => simp [none] at found
          | declared here' | drained here' | decoded here' | put here' | acknowledged here' | processed here'
          | undecodable here' => simp [here] at here'
      | interest | deliverRequest | worker | stop => exact serving

/-- Replies are pending, in the queue or in the hands of the server. -/
def Pending (state : State Worker) : Prop := state.returnQueue ≠ [] ∨ state.unacknowledged ≠ []

/-- The count that the loop goes by is of the replies still in the queue: those
the broker has pushed already are not handled before another one follows them.
And where two deliveries were lost to exceptions, nothing is handled any more. -/
theorem next_iteration_iff (reached : (pipeline setup).Reachable state) (here : state.pc = .queueDeclare) :
    Pending state → (PutsData setup state ↔
      state.returnQueue ≠ [] ∧ (state.deliveries ≠ [] ∨ state.unacknowledged.length < prefetch)) := by
  intro _
  constructor
  · intro puts
    have ready : state.returnQueue ≠ [] := by
      intro empty
      exact absurd (puts.sent _ (idle_iteration here empty) (.inl rfl)) (Nat.lt_irrefl _)
    refine ⟨ready, ?_⟩
    by_cases delivered : state.deliveries = []
    · refine .inr (Classical.byContradiction fun full => ?_)
      obtain ⟨count, counted⟩ := Nat.exists_eq_succ_of_ne_zero (length_pos_iff.mpr ready).ne'
      have declared : Iteration setup state { state with pc := .whileCount state.returnQueue.length } :=
        iteration_declared here
      rw [counted] at declared
      have here' : ({ state with pc := .whileCount count.succ } : State Worker).pc = .whileCount (count + 1) := rfl
      exact blocked_iteration here' delivered full (puts.ends _ declared)
    · exact .inl delivered
  · intro condition
    have sound := sound_inductive.reachable reached
    have few := prefetch_inductive.reachable reached
    have declared := underway_declared sound.listed few here condition.1 condition.2
    refine ⟨fun after inside ended => ?_, fun after inside => underway_ends (iteration_underway declared here inside)⟩
    have underway := iteration_underway declared here inside
    refine underway.put.resolve_right fun unput => ?_
    obtain head | left := ended
    · rw [head] at unput
      exact unput
    · rw [left] at unput
      exact unput

/-- The reply is pushed to the consumer before the server asks for the count. -/
def sampleTail : List (Label Unit) :=
  sampleAsk ++ [.worker () false, .worker () false, .deliverReply 0, .server false]

/-- The only reply is in the hands of the server, and the next iteration puts nothing. -/
theorem reply_left_behind :
    ∃ state, (pipeline sampleSetup).run (.initial sampleSetup) sampleTail = some state ∧ Pending state ∧
      state.unacknowledged.length = 1 ∧ state.pc = .queueDeclare ∧
      Iteration sampleSetup state { state with pc := .queueDeclare } ∧ ¬PutsData sampleSetup state := by
  have ran : ∃ state, (pipeline sampleSetup).run (.initial sampleSetup) sampleTail = some state ∧
      state.unacknowledged.length = 1 ∧ state.pc = .queueDeclare ∧ state.returnQueue = [] := ⟨_, rfl, rfl, rfl, rfl⟩
  obtain ⟨state, ran, held, here, empty⟩ := ran
  have idle : Iteration sampleSetup state { state with pc := .queueDeclare } := idle_iteration here empty
  refine ⟨state, ran, .inr fun none => by simp [none] at held, held, here, idle, fun puts => ?_⟩
  exact absurd (puts.sent _ idle (.inl rfl)) (Nat.lt_irrefl _)

/-- While the reply is still in the queue, the iteration puts it. -/
theorem next_iteration_sample :
    ∃ state, (pipeline sampleSetup).run (.initial sampleSetup)
        (sampleAsk ++ [.worker () false, .worker () false, .server false]) = some state ∧
      PutsData sampleSetup state := by
  have ran : ∃ state, (pipeline sampleSetup).run (.initial sampleSetup)
      (sampleAsk ++ [.worker () false, .worker () false, .server false]) = some state ∧
      state.pc = .queueDeclare ∧ state.returnQueue.length = 1 ∧ state.unacknowledged = [] := ⟨_, rfl, rfl, rfl, rfl⟩
  obtain ⟨state, ran, here, ready, held⟩ := ran
  have waiting : state.returnQueue ≠ [] := fun none => by simp [none] at ready
  refine ⟨state, ran, (next_iteration_iff ((Reachable.start rfl).run ran) here (.inl waiting)).mpr ⟨waiting, .inr ?_⟩⟩
  simp [held, prefetch]

end Ndnperf.RabbitMQ.Pipeline

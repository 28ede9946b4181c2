import Ndnperf.Java.ClientSends

namespace Ndnperf.Java.Client

open Ndn Library Library.Transition

variable {jndn : Jndn} {client : Client} {target : Target} {max : Int} {state before after : State}
  {image : Fetch.State} {Valid : Nat → Bytes → Prop} {arrived : Nat → Option Bytes} {file : PendingFile}
  {busy : Option Nat} {event : Event} {name : Name} {content : Bytes}

/-! ## How a download ends -/

/-- Where `FileManager` is after its last permit: it does not ask for another one. -/
def FileManagerPc.winding : FileManagerPc → Bool
  | .peek | .get | .remove _ | .write _ | .isPending | .close | .stop => true
  | _ => false

/-- The threads end after `Main.cont`, which is set behind the last segment and
after the file is closed. -/
structure Settled (max : Int) (state : State) : Prop where
  opened : state.pendingFile.isSome
  main : state.main = .ended → state.cont = false
  off : state.fileManager = .ended → state.cont = false
  behind : ∀ file ∈ state.pendingFile, state.cont = true → max ≤ file.position → state.fileManager.winding = true
  closed : ∀ file ∈ state.pendingFile, state.cont = false ∨ state.fileManager = .stop → file.channel.isOpen = false

/-- Whatever else changes, the threads, the position and the channel stay as they are. -/
theorem Settled.frame (settled : Settled max before) (main : after.main = .ended → after.cont = false)
    (fileManager : after.fileManager = before.fileManager) (cont : after.cont = before.cont)
    (files : ∃ file ∈ before.pendingFile, ∃ next, after.pendingFile = some next ∧ next.position = file.position ∧
      next.channel = file.channel) : Settled max after := by
  obtain ⟨file, known, next, same, position, channel⟩ := files
  refine ⟨same ▸ rfl, main, ?_, ?_, ?_⟩
  · rw [fileManager, cont]
    exact settled.off
  · intro other here
    obtain rfl : next = other := by simpa [same] using here
    rw [fileManager, cont, position]
    exact settled.behind file known
  · intro other here
    obtain rfl : next = other := by simpa [same] using here
    rw [fileManager, cont, channel]
    exact settled.closed file known

/-- A place that `FileManager` reaches with the file as it is. -/
theorem Settled.goto {pc : FileManagerPc} (settled : Settled max state) (known : state.pendingFile = some file)
    (off : pc = .ended → state.cont = false)
    (behind : state.cont = true → max ≤ file.position → pc.winding = true) (stopping : pc ≠ .stop) :
    Settled max (state.fileManagerAt pc) where
  opened := settled.opened
  main := settled.main
  off := off
  behind other here on covered := by
    obtain rfl : file = other := by simpa [State.fileManagerAt, known] using here
    exact behind on covered
  closed other here ended := settled.closed other here (.inl (ended.resolve_right stopping))

/-- Where the thread asks for permits, the file is not complete. -/
theorem Settled.unfinished (settled : Settled max state) (known : state.pendingFile = some file)
    (waiting : state.fileManager.winding = false) (on : state.cont = true) : (file.position : Int) < max := by
  by_contra beyond
  have winding := settled.behind file known on (by omega)
  rw [waiting] at winding
  cases winding

theorem Settled.fileManagerStep (draining : Draining max (target.existing jndn client) arrived before file)
    (settled : Settled max before) (moved : Client.fileManagerStep before = some after) : Settled max after := by
  have known := draining.known
  cases here : before.fileManager with
  | loop =>
      simp only [Client.fileManagerStep, here, Option.some.injEq] at moved
      subst moved
      refine settled.goto known (fun ended => ?_) (fun on covered => ?_) (by split <;> simp)
      · by_contra on
        rw [Bool.not_eq_false] at on
        simp [on] at ended
      · have unfinished := settled.unfinished known (by rw [here]; rfl) on
        omega
  | available =>
      simp only [Client.fileManagerStep, here, Option.some.injEq] at moved
      subst moved
      refine settled.goto known (fun ended => ?_) (fun on covered => ?_) (by split <;> simp)
      · split at ended <;> cases ended
      · have unfinished := settled.unfinished known (by rw [here]; rfl) on
        omega
  | permits =>
      simp only [Client.fileManagerStep, here, Option.some.injEq] at moved
      subst moved
      refine settled.goto known (by simp) (fun on covered => ?_) (by simp)
      have unfinished := settled.unfinished known (by rw [here]; rfl) on
      omega
  | acquire permits =>
      simp only [Client.fileManagerStep, here, Option.ite_none_right_eq_some, Option.some.injEq] at moved
      obtain ⟨_, rfl⟩ := moved
      have resumed : Settled max (before.fileManagerAt .peek) := settled.goto known (by simp) (fun _ _ => rfl) (by simp)
      exact ⟨resumed.opened, resumed.main, resumed.off, resumed.behind, resumed.closed⟩
  | peek =>
      simp only [Client.fileManagerStep, here, State.withFile, known, Option.some.injEq] at moved
      subst moved
      exact settled.goto known (by split <;> simp) (fun _ _ => by split <;> rfl) (by split <;> simp)
  | get =>
      simp only [Client.fileManagerStep, here, State.withFile, known, Option.some.injEq] at moved
      subst moved
      exact settled.goto known (by simp) (fun _ _ => rfl) (by simp)
  | remove blob =>
      obtain ⟨content, rfl, _⟩ := draining.remove here
      have on := draining.running here (by simp) (by simp)
      simp only [Client.fileManagerStep, here, State.withFile, known, Option.some.injEq] at moved
      subst moved
      exact ⟨rfl, settled.main, by simp, fun _ _ _ _ => rfl, fun _ _ ended => by simp [on] at ended⟩
  | write blob =>
      obtain ⟨opened, _⟩ := draining.write here
      have on := draining.running here (by simp) (by simp)
      simp only [Client.fileManagerStep, here, State.withFile, known, opened, if_true, Option.some.injEq] at moved
      subst moved
      exact ⟨rfl, settled.main, by simp, fun _ _ _ _ => rfl, fun _ _ ended => by simp [on] at ended⟩
  | isPending =>
      simp only [Client.fileManagerStep, here, State.withFile, known, Option.some.injEq] at moved
      subst moved
      refine settled.goto known (by split <;> simp) (fun _ covered => ?_) (by split <;> simp)
      have passed : file.isPending = false := by
        simp only [PendingFile.isPending, draining.size, decide_eq_false_iff_not]
        omega
      rw [passed]
      rfl
  | close =>
      have on := draining.running here (by simp) (by simp)
      simp only [Client.fileManagerStep, here, State.withFile, known, Option.some.injEq] at moved
      subst moved
      refine ⟨rfl, settled.main, by simp, fun _ _ _ _ => rfl, fun other same _ => ?_⟩
      obtain rfl : file.close = other := by simpa using same
      rfl
  | stop =>
      simp only [Client.fileManagerStep, here, Option.some.injEq] at moved
      subst moved
      exact ⟨settled.opened, fun _ => rfl, fun _ => rfl, by simp,
        fun other same _ => settled.closed other same (.inr here)⟩
  | ended =>
      simp only [Client.fileManagerStep, here] at moved
      cases moved

theorem Settled.mainStep (live : Live jndn client target max before image arrived file busy)
    (settled : Settled max before) (moved : Client.mainStep jndn none before = some after) : Settled max after := by
  have kept : ∃ opened ∈ before.pendingFile, ∃ next, before.pendingFile = some next ∧ next.position = opened.position ∧
      next.channel = opened.channel := ⟨file, live.drains.known, file, live.drains.known, rfl, rfl⟩
  have main := live.main
  cases here : before.main with
  | poll =>
      rw [here] at main
      cases busy <;> exact main.elim
  | loop =>
      simp only [Client.mainStep, here, Option.some.injEq] at moved
      subst moved
      exact settled.frame (fun ended => by simpa using ended) rfl rfl kept
  | events | release =>
      simp only [Client.mainStep, here, Option.some.injEq] at moved
      subst moved
      exact settled.frame (by simp) rfl rfl kept
  | request name =>
      simp only [Client.mainStep, here, Option.some.injEq] at moved
      obtain ⟨face, pendingInterests, requested, same⟩ := @requestNext_frame jndn name none before
      rw [← moved, same]
      exact settled.frame (by simp) rfl rfl kept
  | ended =>
      simp only [Client.mainStep, here] at moved
      cases moved

/-! ## Every step after the count -/

/-- The count has arrived, and the download goes on. -/
def Progressing (jndn : Jndn) (client : Client) (target : Target) (max : Int) (state : State) : Prop :=
  ∃ image arrived file busy, (Fetch.system (min client.window max).toNat max.toNat).Reachable image ∧
    Live jndn client target max state image arrived file busy ∧ Settled max state

theorem Progressing.step (downloads : Downloads jndn client target) (opening : 1 ≤ client.window) (positive : 1 ≤ max)
    (progressing : Progressing jndn client target max before)
    (moved : (client.download jndn target max).step before event = some after) :
    Progressing jndn client target max after := by
  obtain ⟨image, arrived, file, busy, reached, live, settled⟩ := progressing
  obtain ⟨cooperative, moved⟩ := System.guarded_step.mp moved
  have within := (Fetch.wellFormed reached).answered
  have next : Settled max after := by
    change client.step jndn before event = some after at moved
    cases event with
    | data name content throwsAt =>
        obtain ⟨rfl, _⟩ := cooperative
        obtain ⟨_, here, member, rfl⟩ := step_data.mp moved
        obtain ⟨index, inside, rfl, _⟩ := live.data downloads here member content
        have small := live.small (Fetch.State.mem_outstanding.mp inside).1
        have bound := live.bound
        have known : jndn.toUri (target.segmentName jndn index) ∈
            (before.settle (target.segmentName jndn index)).pendingInterests := live.known _ member
        have opened : (before.settle (target.segmentName jndn index)).pendingFile = some file := live.drains.known
        rw [onData_segment downloads (by omega) known opened]
        exact settled.frame (by simp) rfl rfl ⟨file, live.drains.known, file.put index content, rfl, rfl, rfl⟩
    | timeout name throwsAt =>
        obtain ⟨rfl, left⟩ := cooperative
        obtain ⟨_, _, _, rfl⟩ := step_timeout.mp moved
        rw [onTimeout_retry (by exact left)]
        exact settled.frame settled.main rfl rfl ⟨file, live.drains.known, file, live.drains.known, rfl, rfl⟩
    | main throwsAt =>
        obtain rfl := cooperative
        exact settled.mainStep live (step_main.mp moved).2
    | fileManager => exact settled.fileManagerStep live.drains (step_fileManager.mp moved).2
  have delivers : Delivers jndn target max (fun _ _ => True) event := by cases event <;> simp [Delivers]
  have related : Related jndn client target max (fun _ _ => True) before image :=
    .inr ⟨arrived, file, busy, live, fun _ _ _ => trivial⟩
  have alive : ∀ {image}, Related jndn client target max (fun _ _ => True) after image →
      ∃ arrived file busy, Live jndn client target max after image arrived file busy := by
    intro image related
    rcases related with ⟨waiting, _⟩ | ⟨arrived, file, busy, live, _⟩
    · have opened := next.opened
      simp [waiting.absent] at opened
    · exact ⟨arrived, file, busy, live⟩
  rcases related_step downloads opening positive within related cooperative delivers moved with
    same | ⟨index, further, answered, related⟩
  · obtain ⟨arrived, file, busy, live⟩ := alive same
    exact ⟨image, arrived, file, busy, reached, live, next⟩
  · obtain ⟨arrived, file, busy, live⟩ := alive related
    exact ⟨further, arrived, file, busy, reached.step answered, live, next⟩

/-! ## What is left to do -/

def MainPc.rank : MainPc → Nat
  | .release _ => 3
  | .request _ => 2
  | .loop => 1
  | .poll | .events | .ended => 0

/-- The steps of `FileManager` until it has handed out a segment, or until its end when none is left. -/
def FileManagerPc.rank (left : Nat) : FileManagerPc → Nat
  | .isPending => if left = 0 then 4 else 14
  | .loop => if left = 0 then 1 else 13
  | .available => 12
  | .permits => 11
  | .acquire _ => 10
  | .write _ => 8
  | .peek => 7
  | .get => 6
  | .remove _ => 5
  | .close => 3
  | .stop => 2
  | .ended => 0

/-- Segments that have not been handed out. -/
def State.left (max : Int) (state : State) : Nat := max.toNat - (state.pendingFile.map PendingFile.position).getD 0

/-- Steps that the client has before it: to receive what is missing, and to write it. -/
def State.remaining (max : Int) (state : State) : Nat :=
  4 * (max.toNat - state.received.length) + state.main.rank + 16 * state.left max +
    state.fileManager.rank (state.left max)

/-- The file has been closed behind its last segment, with the text that the download is completed. -/
structure Completed (count : Nat) (state : State) : Prop where
  off : state.cont = false
  stopped : state.fileManager = .ended
  written : state.written.length = count
  closed : ∃ file, state.pendingFile = some file ∧ file.channel.isOpen = false ∧ file.position = count

theorem State.left_eq (known : state.pendingFile = some file) : state.left max = max.toNat - file.position := by
  simp only [State.left, known, Option.map_some, Option.getD_some]

/-- Every segment that arrived was received once. -/
theorem Live.received_card (live : Live jndn client target max state image arrived file busy) :
    state.received.length = (image.answered ∪ busy.toFinset).card := by
  have distinct : (state.received.map fun pair => pair.1.toNat).Nodup := by
    have once := live.once
    rw [List.Nodup, List.pairwise_map] at once ⊢
    refine once.imp_of_mem fun {left right} leftIn rightIn different same => different ?_
    obtain ⟨_, leftNumber, _⟩ := (live.received _ _).mp leftIn
    obtain ⟨_, rightNumber, _⟩ := (live.received _ _).mp rightIn
    omega
  have same : (state.received.map fun pair => pair.1.toNat).toFinset = image.answered ∪ busy.toFinset := by
    ext index
    simp only [List.mem_toFinset, List.mem_map, Finset.mem_union, Option.mem_toFinset]
    rw [← live.answered]
    constructor
    · intro listed
      obtain ⟨⟨segment, content⟩, known, same⟩ := listed
      obtain ⟨other, rfl, arrivedThen⟩ := (live.received _ _).mp known
      obtain rfl : other = index := by simpa using same
      exact arrivedThen ▸ rfl
    · intro arrivedThen
      obtain ⟨content, here⟩ := Option.isSome_iff_exists.mp arrivedThen
      exact ⟨(index, content), (live.received _ _).mpr ⟨index, rfl, here⟩, Int.toNat_natCast index⟩
  rw [← same, List.toFinset_card_of_nodup distinct, List.length_map]

/-- Once as many segments as there are have been received, each of them has arrived. -/
theorem Live.all_arrived (live : Live jndn client target max state image arrived file busy)
    (all : max.toNat ≤ state.received.length) {index : Nat} (inside : (index : Int) < max) :
    (arrived index).isSome := by
  have within : image.answered ∪ busy.toFinset ⊆ Finset.range max.toNat := by
    intro other member
    have arrivedThen := (live.answered other).mpr (by simpa using member)
    have below := live.drains.bounded other arrivedThen
    exact Finset.mem_range.mpr (by omega)
  have whole : image.answered ∪ busy.toFinset = Finset.range max.toNat := by
    refine Finset.eq_of_subset_of_card_le within ?_
    rw [Finset.card_range, ← live.received_card]
    exact all
  have member : index ∈ image.answered ∪ busy.toFinset := whole ▸ Finset.mem_range.mpr (by omega)
  exact (live.answered index).mpr (by simpa using member)

/-- A segment that has not arrived is on its way. -/
theorem Live.outstanding (live : Live jndn client target max state image arrived file none)
    (reached : (Fetch.system (min client.window max).toNat max.toNat).Reachable image) (opening : 1 ≤ client.window)
    (positive : 1 ≤ max) (missing : state.received.length < max.toNat) :
    ∃ index : Nat, (index : Int) < max ∧ target.segmentName jndn index ∈ state.face := by
  have short : image.answered.card < max.toNat := by
    have sizes := live.received_card
    rw [Option.toFinset_none, Finset.union_empty] at sizes
    omega
  obtain ⟨absent, inside, unanswered⟩ : ∃ absent ∈ Finset.range max.toNat, absent ∉ image.answered := by
    by_contra all
    push Not at all
    have covered := Finset.card_le_card (show Finset.range max.toNat ⊆ image.answered from all)
    rw [Finset.card_range] at covered
    omega
  obtain ⟨index, member⟩ :=
    Fetch.outstanding_nonempty reached (by omega) (Finset.mem_range.mp inside) unanswered
  have face := live.face
  rw [Option.toFinset_none, Finset.sdiff_empty] at face
  obtain ⟨_, sent⟩ := face.found member
  exact ⟨index, live.small (Fetch.State.mem_outstanding.mp member).1, sent⟩

/-! ## Coming closer -/

theorem State.remaining_goto {pc : FileManagerPc}
    (closer : pc.rank (state.left max) < state.fileManager.rank (state.left max)) :
    (state.fileManagerAt pc).remaining max < state.remaining max :=
  Nat.add_lt_add_left closer _

/-- `FileManager` comes closer to the end, and never waits in vain for a permit,
once everything has arrived or the last segment is written. -/
theorem Live.fileManager_closer (live : Live jndn client target max state image arrived file busy)
    (settled : Settled max state) (positive : 1 ≤ max)
    (due : state.cont = true → max.toNat ≤ state.received.length ∧ ∀ name, state.main ≠ .release name)
    (unfinished : ¬Completed max.toNat state) :
    ∃ after, Client.fileManagerStep state = some after ∧ after.remaining max < state.remaining max := by
  have known := live.drains.known
  have capped := live.position_le positive
  have left : state.left max = max.toNat - file.position := State.left_eq known
  have arrivedNext : state.cont = true → (file.position : Int) < max → (arrived file.position).isSome :=
    fun on below => live.all_arrived (due on).1 below
  have goes : ∀ pc : FileManagerPc, Client.fileManagerStep state = some (state.fileManagerAt pc) →
      pc.rank (state.left max) < state.fileManager.rank (state.left max) →
      ∃ after, Client.fileManagerStep state = some after ∧ after.remaining max < state.remaining max :=
    fun pc moved closer => ⟨_, moved, State.remaining_goto closer⟩
  cases here : state.fileManager with
  | loop =>
      by_cases on : state.cont = true
      · have below := settled.unfinished known (by rw [here]; rfl) on
        have more : state.left max ≠ 0 := by omega
        refine goes .available (by simp only [Client.fileManagerStep, here, on, if_true]) ?_
        simp only [here, FileManagerPc.rank, more, if_false, Nat.reduceLT]
      · have covered := (live.drains.stopped (Bool.not_eq_true _ ▸ on)).1
        have none : state.left max = 0 := by omega
        refine goes .ended (by simp only [Client.fileManagerStep, here, if_neg on]) ?_
        simp only [here, FileManagerPc.rank, none, if_true, Nat.one_pos]
  | available =>
      refine goes (if 0 < state.filePass then .permits else .acquire 1) (by simp only [Client.fileManagerStep, here]) ?_
      split <;> simp only [here, FileManagerPc.rank, Nat.reduceLT]
  | permits =>
      refine goes (.acquire state.filePass) (by simp only [Client.fileManagerStep, here]) ?_
      simp only [here, FileManagerPc.rank, Nat.reduceLT]
  | acquire permits =>
      have on := live.drains.running here (by simp) (by simp)
      have below := settled.unfinished known (by rw [here]; rfl) on
      have permitted : 0 < state.filePass := by
        rcases live.drains.awake (arrivedNext on below) (by rw [here]; rfl) with permitted | ⟨name, releasing⟩
        · exact permitted
        · exact ((due on).2 name releasing).elim
      have enough : permits ≤ state.filePass := by
        rcases live.drains.granted permits here with one | granted
        · omega
        · exact granted
      have closer : (state.fileManagerAt .peek).remaining max < state.remaining max :=
        State.remaining_goto (by simp only [here, FileManagerPc.rank, Nat.reduceLT])
      have moved : Client.fileManagerStep state =
          some { state with filePass := state.filePass - permits, fileManager := .peek } := by
        simp only [Client.fileManagerStep, here, enough, if_true]
      exact ⟨_, moved, closer⟩
  | peek =>
      have on := live.drains.running here (by simp) (by simp)
      refine goes (if file.current.isSome then .get else .isPending)
        (by simp only [Client.fileManagerStep, here, State.withFile, known]) ?_
      by_cases held : file.current.isSome
      · simp only [held, if_true, here, FileManagerPc.rank, Nat.reduceLT]
      · have missing := live.drains.tracks.next_missing (Option.not_isSome_iff_eq_none.mp held)
        have none : state.left max = 0 := by
          by_contra more
          have arrivedThen := arrivedNext on (by omega)
          rw [missing] at arrivedThen
          cases arrivedThen
        rw [if_neg held]
        simp only [here, FileManagerPc.rank, none, if_true, Nat.reduceLT]
  | get =>
      refine goes (.remove file.current) (by simp only [Client.fileManagerStep, here, State.withFile, known]) ?_
      simp only [here, FileManagerPc.rank, Nat.reduceLT]
  | remove blob =>
      obtain ⟨content, rfl, _⟩ := live.drains.remove here
      have found := live.drains.found
      rw [here] at found
      have below : (file.position : Int) < max :=
        live.drains.bounded _ (live.drains.tracks.isSome_held.mp found.2).2
      let next : State := { state with pendingFile := some file.advance, fileManager := .write content }
      have moved : Client.fileManagerStep state = some next := by
        simp only [Client.fileManagerStep, here, State.withFile, known, next]
      have advanced : next.left max = max.toNat - (file.position + 1) := rfl
      refine ⟨next, moved, ?_⟩
      simp only [State.remaining, advanced, left, here, next, FileManagerPc.rank]
      omega
  | write blob =>
      obtain ⟨opened, _⟩ := live.drains.write here
      let next : State := { state with
        pendingFile := some (file.write blob), fileManager := .peek, written := state.written ++ [blob] }
      have moved : Client.fileManagerStep state = some next := by
        simp only [Client.fileManagerStep, here, State.withFile, known, opened, if_true, next]
      have same : next.left max = max.toNat - file.position := rfl
      refine ⟨next, moved, ?_⟩
      simp only [State.remaining, same, left, here, next, FileManagerPc.rank]
      omega
  | isPending =>
      refine goes (if file.isPending then .loop else .close)
        (by simp only [Client.fileManagerStep, here, State.withFile, known]) ?_
      by_cases pending : file.isPending
      · have more : state.left max ≠ 0 := by
          simp only [PendingFile.isPending, live.drains.size, decide_eq_true_eq] at pending
          omega
        simp only [pending, if_true, here, FileManagerPc.rank, more, if_false, Nat.reduceLT]
      · have none : state.left max = 0 := by
          simp only [PendingFile.isPending, live.drains.size, decide_eq_true_eq] at pending
          omega
        rw [if_neg pending]
        simp only [here, FileManagerPc.rank, none, if_true, Nat.reduceLT]
  | close =>
      let next : State := { state with pendingFile := some file.close, fileManager := .stop }
      have moved : Client.fileManagerStep state = some next := by
        simp only [Client.fileManagerStep, here, State.withFile, known, next]
      have same : next.left max = max.toNat - file.position := rfl
      refine ⟨next, moved, ?_⟩
      simp only [State.remaining, same, left, here, next, FileManagerPc.rank]
      omega
  | stop =>
      have covered := live.drains.finished (by rw [here]; rfl)
      have none : state.left max = 0 := by omega
      have closer : (state.fileManagerAt .loop).remaining max < state.remaining max :=
        State.remaining_goto (by simp only [here, FileManagerPc.rank, none, if_true, Nat.reduceLT])
      have moved : Client.fileManagerStep state = some { state with cont := false, fileManager := .loop } := by
        simp only [Client.fileManagerStep, here]
      exact ⟨_, moved, closer⟩
  | ended =>
      have off := settled.off here
      have covered := (live.drains.stopped off).1
      refine absurd ⟨off, here, ?_, file, known, settled.closed file known (.inl off), by omega⟩ unfinished
      have written := congrArg List.length live.drains.written
      simp only [here, FileManagerPc.inHand, Option.toList_none, List.append_nil, List.length_map,
        List.length_range] at written
      omega

/-- The client's own steps, and Data with the contents that are replied. -/
def Answering (replies : Name → Option Bytes) (event : Event) : Prop :=
  event = .main none ∨ event = .fileManager ∨ ∃ name content, replies name = some content ∧
    event = .data name content none

/-- Steps of that kind lead closer to the end. -/
def Nearer (jndn : Jndn) (client : Client) (target : Target) (max : Int) (replies : Name → Option Bytes)
    (state : State) : Prop :=
  (client.download jndn target max).CanReach (Answering replies)
    (fun after => Progressing jndn client target max after ∧ after.remaining max < state.remaining max) state

variable {replies : Name → Option Bytes}

theorem Progressing.nearer (downloads : Downloads jndn client target) (opening : 1 ≤ client.window) (positive : 1 ≤ max)
    (progressing : Progressing jndn client target max state) (chosen : Answering replies event)
    (cooperative : Cooperative jndn target max state event) (moved : client.step jndn state event = some after)
    (closer : after.remaining max < state.remaining max) : Nearer jndn client target max replies state := by
  have stepped : (client.download jndn target max).step state event = some after :=
    System.guarded_step.mpr ⟨cooperative, moved⟩
  exact System.canReach_of_step chosen stepped ⟨progressing.step downloads opening positive stepped, closer⟩

/-- Each step of the main thread between two Data comes closer. -/
theorem State.main_closer {main : MainPc} {filePass : Nat} {next : Int} {face requested : List Name}
    {pendingInterests : Finset Text} (closer : main.rank < state.main.rank) :
    ({ state with main, filePass, next, face, requested, pendingInterests }).remaining max < state.remaining max := by
  simp only [State.remaining, State.left]
  omega

/-- The Data of a segment that is outstanding comes closer. -/
theorem Live.data_closer (downloads : Downloads jndn client target)
    (live : Live jndn client target max state image arrived file busy) (here : state.main = .events) {index : Nat}
    (small : (index : Int) < max) (sent : target.segmentName jndn index ∈ state.face)
    (missing : state.received.length < max.toNat) (content : Bytes) :
    ∃ after, client.step jndn state (.data (target.segmentName jndn index) content none) = some after ∧
      after.remaining max < state.remaining max := by
  have bound := live.bound
  have known : jndn.toUri (target.segmentName jndn index) ∈
      (state.settle (target.segmentName jndn index)).pendingInterests := live.known _ sent
  have opened : (state.settle (target.segmentName jndn index)).pendingFile = some file := live.drains.known
  refine ⟨_, step_data.mpr ⟨live.alive, here, sent, rfl⟩, ?_⟩
  · rw [onData_segment downloads (by omega) known opened]
    simp only [State.remaining, State.left, live.drains.known, State.settle, here, MainPc.rank, List.length_append,
      List.length_singleton, Option.map_some, Option.getD_some, PendingFile.put]
    omega

theorem Progressing.closer (downloads : Downloads jndn client target) (opening : 1 ≤ client.window) (positive : 1 ≤ max)
    (served : ∀ index : Nat, (index : Int) < max → (replies (target.segmentName jndn index)).isSome)
    (progressing : Progressing jndn client target max state) (unfinished : ¬Completed max.toNat state) :
    Nearer jndn client target max replies state := by
  obtain ⟨image, arrived, file, busy, reached, live, settled⟩ := id progressing
  have by_main : ∀ after, Client.mainStep jndn none state = some after → after.remaining max < state.remaining max →
      Nearer jndn client target max replies state := by
    intro after moved closer
    have cooperative : Cooperative jndn target max state (.main none) := rfl
    exact progressing.nearer downloads opening positive (.inl rfl) cooperative
      (step_main.mpr ⟨live.alive, moved⟩) closer
  have by_fileManager : (state.cont = true → max.toNat ≤ state.received.length ∧ ∀ name, state.main ≠ .release name) →
      Nearer jndn client target max replies state := by
    intro due
    obtain ⟨after, moved, closer⟩ := live.fileManager_closer settled positive due unfinished
    have cooperative : Cooperative jndn target max state .fileManager := trivial
    exact progressing.nearer downloads opening positive (.inr (.inl rfl)) cooperative
      (step_fileManager.mpr ⟨live.alive, moved⟩) closer
  by_cases on : state.cont = true
  · have main := live.main
    cases here : state.main with
    | poll =>
        rw [here] at main
        cases busy <;> exact main.elim
    | loop =>
        refine by_main { state with main := .events } (by simp only [Client.mainStep, here, on, if_true]) ?_
        exact State.main_closer (by simp only [here, MainPc.rank, Nat.one_pos])
    | events =>
        obtain rfl := live.idle (by rw [here]; rfl)
        by_cases missing : state.received.length < max.toNat
        · obtain ⟨index, small, sent⟩ := live.outstanding reached opening positive missing
          obtain ⟨content, replied⟩ := Option.isSome_iff_exists.mp (served index small)
          obtain ⟨after, moved, closer⟩ := live.data_closer downloads here small sent missing content
          have cooperative : Cooperative jndn target max state (.data (target.segmentName jndn index) content none) :=
            ⟨rfl, fun same => absurd (congrArg List.length same) (by simp [Target.segmentName, Target.name])⟩
          exact progressing.nearer downloads opening positive
            (.inr (.inr ⟨_, content, replied, rfl⟩)) cooperative moved closer
        · exact by_fileManager fun _ => ⟨by omega, by simp [here]⟩
    | release name =>
        refine by_main { state with filePass := state.filePass + 1, main := .request name }
          (by simp only [Client.mainStep, here]) ?_
        exact State.main_closer (by simp only [here, MainPc.rank, Nat.reduceLT])
    | request name =>
        obtain ⟨face, pendingInterests, requested, same⟩ := @requestNext_frame jndn name none state
        refine by_main (requestNext jndn name none state) (by simp only [Client.mainStep, here]) ?_
        rw [same]
        exact State.main_closer (by simp only [here, MainPc.rank, Nat.reduceLT])
    | ended => exact absurd (settled.main here) (by simp [on])
  · exact by_fileManager fun here => absurd here on

/-- Wherever a download has got to, its completion stays within reach. -/
theorem Progressing.completes (downloads : Downloads jndn client target) (opening : 1 ≤ client.window)
    (positive : 1 ≤ max)
    (served : ∀ index : Nat, (index : Int) < max → (replies (target.segmentName jndn index)).isSome)
    (progressing : Progressing jndn client target max state) :
    (client.download jndn target max).CanReach (Answering replies) (Completed max.toNat) state := by
  refine System.canReach_of_measure (State.remaining max) (fun progressing unfinished => ?_) progressing
  exact Progressing.closer downloads opening positive served progressing unfinished

theorem Progressing.run {events : List Event} (downloads : Downloads jndn client target) (opening : 1 ≤ client.window)
    (positive : 1 ≤ max) (progressing : Progressing jndn client target max before)
    (ran : (client.download jndn target max).run before events = some after) :
    Progressing jndn client target max after := by
  induction events generalizing before with
  | nil =>
      obtain rfl : before = after := Option.some.inj ran
      exact progressing
  | cons event rest ih =>
      obtain ⟨middle, moved, remaining⟩ := System.run_cons.mp ran
      exact ih (progressing.step downloads opening positive moved) remaining

/-- The count starts a download. -/
theorem Waiting.progressing (downloads : Downloads jndn client target) (waiting : Waiting jndn client target state)
    (here : state.main = .events) (opening : 1 ≤ client.window) (positive : 1 ≤ max)
    (parsed : parseLong (jndn.blobText content) = some max) :
    Progressing jndn client target max (client.onData jndn target.name content none (state.settle target.name)) := by
  obtain ⟨file, live⟩ := waiting.count downloads here opening positive parsed
  have known : jndn.toUri target.name ∈ (state.settle target.name).pendingInterests := (waiting.sent here).2
  refine ⟨_, _, file, none, .start rfl, live, ?_⟩
  rw [onData_count downloads positive known parsed, expressSegments_eq]
  constructor
  · rfl
  · intro ended
    simp [State.settle, here] at ended
  · intro ended
    rcases waiting.fileManager with other | other | other <;> simp [State.settle, other] at ended
  · intro opened same _ covered
    obtain rfl : PendingFile.new (client.localFile (jndn.toEscapedString target.file)) max = opened :=
      Option.some.inj same
    simp only [PendingFile.new] at covered
    omega
  · intro opened same ended
    rcases ended with off | stopping
    · simp [State.settle, waiting.on] at off
    · rcases waiting.fileManager with other | other | other <;> simp [State.settle, other] at stopping

end Ndnperf.Java.Client

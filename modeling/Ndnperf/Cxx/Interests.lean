import Ndnperf.Cxx.ClientInvariant

namespace Ndnperf.Cxx.Client

open Ndn Library.Word Library.Transition Library.Reorder

variable {ndn : NdnCxx} {client : Client} {opens : Bool} {state before after : State} {event : Event}
  {pending : Pending} {data : Data} {index segment : Nat} {now : Int}

/-! ## Downloads under any events -/

/-- What one Data does to a download: its final block is no number, or it
completes the file, or the next segment is asked for if there is one. -/
theorem onDataFile_cases (named : data.name = client.segmentName ndn index) (segment : Nat) (state : State) :
    onDataFile ndn segment data state = { state with status := .faulted } ∨
      ∃ maxSegment currentSegment file pendingSegments, data.finalBlock.bind ndn.toSegment = some maxSegment ∧
        ((maxSegment < currentSegment ∧ onDataFile ndn segment data state =
          { state with
            maxSegment, currentSegment, file, pendingSegments
            payloadSize := state.payloadSize + data.content.length
            status := .exited 0 }) ∨
        currentSegment ≤ maxSegment ∧ state.currentPacket ≤ maxSegment ∧ onDataFile ndn segment data state =
          { state with
            maxSegment, currentSegment, file, pendingSegments
            payloadSize := state.payloadSize + data.content.length
            face := state.face ++ [client.request ndn state.currentPacket 5]
            currentPacket := state.currentPacket + 1 } ∨
        currentSegment ≤ maxSegment ∧ maxSegment < state.currentPacket ∧ onDataFile ndn segment data state =
          { state with
            maxSegment, currentSegment, file, pendingSegments
            payloadSize := state.payloadSize + data.content.length }) := by
  cases reported : data.finalBlock.bind ndn.toSegment with
  | none => exact .inl (by simp only [onDataFile, reported])
  | some maxSegment =>
      refine .inr ?_
      rw [onDataFile_eq reported]
      simp only
      split
      · rename_i complete
        exact ⟨maxSegment, _, _, _, rfl, .inl ⟨complete, rfl⟩⟩
      · rename_i incomplete
        rw [expressFollowing_eq named]
        simp only
        split
        · rename_i more
          exact ⟨maxSegment, _, _, _, rfl, .inr (.inl ⟨Nat.not_lt.mp incomplete, more, rfl⟩)⟩
        · rename_i done
          exact ⟨maxSegment, _, _, _, rfl, .inr (.inr ⟨Nat.not_lt.mp incomplete, Nat.not_le.mp done, rfl⟩)⟩

/-- An Interest for the segment in its name, with the handlers of a download. -/
structure AsksFor (ndn : NdnCxx) (client : Client) (index : Nat) (pending : Pending) : Prop where
  interest : pending.interest = { name := client.segmentName ndn index, mustBeFresh := true }
  onData : ∃ segment, pending.onData = .onDataFile segment
  onTimeout : ∃ bound retries, pending.onTimeout = .onTimeoutFile bound retries

structure Downloading (ndn : NdnCxx) (client : Client) (state : State) : Prop where
  download : state.download = true
  asked : ∀ pending ∈ state.face, ∃ index < state.currentPacket, AsksFor ndn client index pending

theorem asksFor_request (index retries : Nat) : AsksFor ndn client index (client.request ndn index retries) :=
  ⟨rfl, ⟨index, rfl⟩, ⟨_, _, rfl⟩⟩

theorem downloading_run (chosen : client.filePath ≠ []) (opens : Bool) (now : Int) :
    Downloading ndn client (client.run ndn opens now .initial) := by
  rw [run_eq chosen]
  refine ⟨rfl, fun pending member => ?_⟩
  obtain ⟨index, inside, rfl⟩ := List.mem_map.mp member
  have below : index < client.window := by simpa using inside
  exact ⟨index, below, asksFor_request index 5⟩

/-- The events of a download, with the handlers they run. -/
inductive Moves (ndn : NdnCxx) (client : Client) (before : State) : Event → State → Prop where
  | received {pending : Pending} {data : Data} {now : Int} {index segment : Nat} (member : pending ∈ before.face)
      (asks : AsksFor ndn client index pending) (named : data.name = client.segmentName ndn index)
      (handler : pending.onData = .onDataFile segment) :
      Moves ndn client before (.data pending data now) (onDataFile ndn segment data (before.settle pending))
  | refused {pending : Pending} {now : Int} (member : pending ∈ before.face) (status : Status)
      (stops : status ≠ .running) :
      Moves ndn client before (.nack pending now) { before.settle pending with status }
  | nacked {pending : Pending} {now : Int} {index segment : Nat} (member : pending ∈ before.face)
      (asks : AsksFor ndn client index pending) (decoded : ndn.toSegment (ndn.fromSegment index) = some segment) :
      Moves ndn client before (.nack pending now) ((before.settle pending).express
        { interest := pending.interest, onData := .onDataFile segment, onTimeout := .onTimeoutFile (int32 segment) 5 })
  | abandoned {pending : Pending} (member : pending ∈ before.face) (status : Status) (stops : status ≠ .running) :
      Moves ndn client before (.timeout pending) { before.settle pending with status }
  | retried {pending : Pending} {index : Nat} {bound : Int} {retries : Nat} (member : pending ∈ before.face)
      (asks : AsksFor ndn client index pending) (handler : pending.onTimeout = .onTimeoutFile bound (retries + 1)) :
      Moves ndn client before (.timeout pending) ((before.settle pending).express
        { interest := pending.interest, onData := .onDataFile (uint64 bound),
          onTimeout := .onTimeoutFile bound retries })
  | shown : Moves ndn client before .timer { before with payloadSize := 0 }

theorem moves_of_step (downloading : Downloading ndn client before)
    (moved : client.step ndn before event = some after) :
    before.status = .running ∧ Moves ndn client before event after := by
  have mode := downloading.download
  simp only [step, Option.ite_none_right_eq_some] at moved
  obtain ⟨running, moved⟩ := moved
  refine ⟨running, ?_⟩
  cases event with
  | data pending data now =>
      simp only [Option.ite_none_right_eq_some, Option.some.injEq] at moved
      obtain ⟨⟨member, named⟩, rfl⟩ := moved
      obtain ⟨index, _, asks⟩ := downloading.asked pending member
      obtain ⟨segment, handler⟩ := asks.onData
      rw [handler]
      exact .received member asks (named.trans (congrArg Interest.name asks.interest)) handler
  | nack pending now =>
      simp only [Option.ite_none_right_eq_some, Option.some.injEq] at moved
      obtain ⟨member, rfl⟩ := moved
      obtain ⟨index, _, asks⟩ := downloading.asked pending member
      have last : pending.interest.name.getLast? = some (ndn.fromSegment index) := by
        rw [asks.interest]
        exact List.getLast?_concat
      have settled : (before.settle pending).download = true := mode
      rw [onNack, if_pos settled, last, Option.bind_some]
      split
      · exact .refused member (.exited (-1)) (by simp)
      · split
        · rename_i decoded
          exact .nacked member asks decoded
        · exact .refused member .faulted (by simp)
  | timeout pending =>
      simp only [Option.ite_none_right_eq_some, Option.some.injEq] at moved
      obtain ⟨member, rfl⟩ := moved
      obtain ⟨index, _, asks⟩ := downloading.asked pending member
      obtain ⟨bound, retries, handler⟩ := asks.onTimeout
      simp only [handler, handleTimeout, onTimeoutFile]
      cases retries with
      | zero => exact .abandoned member (.exited 1) (by simp)
      | succ retries => exact .retried member asks handler
  | timer =>
      simp only [mode, if_true, Option.some.injEq] at moved
      subst moved
      exact .shown

theorem Downloading.settle (downloading : Downloading ndn client state) (pending : Pending) :
    Downloading ndn client (state.settle pending) :=
  ⟨downloading.download, fun other kept => downloading.asked other (List.mem_of_mem_erase kept)⟩

theorem Downloading.express (downloading : Downloading ndn client state) (below : index < state.currentPacket)
    (asks : AsksFor ndn client index pending) : Downloading ndn client (state.express pending) := by
  refine ⟨downloading.download, List.forall_mem_append.mpr ⟨downloading.asked, ?_⟩⟩
  exact List.forall_mem_singleton.mpr ⟨index, below, asks⟩

theorem Downloading.moves (downloading : Downloading ndn client before) (moved : Moves ndn client before event after) :
    Downloading ndn client after := by
  cases moved with
  | @received pending data now index segment member asks named handler =>
      have settled := downloading.settle pending
      obtain faulted | ⟨maxSegment, currentSegment, file, pendingSegments, _, ⟨_, completed⟩ |
          ⟨_, _, more⟩ | ⟨_, _, done⟩⟩ := onDataFile_cases named segment (before.settle pending)
      · exact faulted ▸ ⟨settled.download, settled.asked⟩
      · exact completed ▸ ⟨settled.download, settled.asked⟩
      · rw [more]
        refine ⟨settled.download, List.forall_mem_append.mpr ⟨fun other kept => ?_, ?_⟩⟩
        · obtain ⟨index, below, asks⟩ := settled.asked other kept
          exact ⟨index, Nat.lt_succ_of_lt below, asks⟩
        · exact List.forall_mem_singleton.mpr ⟨_, Nat.lt_succ_self _, asksFor_request _ 5⟩
      · exact done ▸ ⟨settled.download, settled.asked⟩
  | refused | abandoned =>
      have settled := downloading.settle ‹_›
      exact ⟨settled.download, settled.asked⟩
  | nacked member asks | retried member asks =>
      obtain ⟨index, below, asks⟩ := downloading.asked _ member
      exact (downloading.settle _).express below ⟨asks.interest, ⟨_, rfl⟩, ⟨_, _, rfl⟩⟩
  | shown => exact ⟨downloading.download, downloading.asked⟩

theorem downloading_inductive (chosen : client.filePath ≠ []) (opens : Bool) :
    (client.system ndn opens).Inductive (Downloading ndn client) where
  start := by
    intro state held
    obtain ⟨now, rfl⟩ := held
    exact downloading_run chosen opens now
  step downloading moved := downloading.moves (moves_of_step downloading moved).2

/-! ## How far the counters get -/

theorem onDataFile_packets (segment : Nat) (data : Data) (state : State) :
    (onDataFile ndn segment data state).currentPacket ≤ state.currentPacket + 1 := by
  cases reported : data.finalBlock.bind ndn.toSegment with
  | none =>
      simp only [onDataFile, reported]
      exact Nat.le_succ _
  | some maxSegment =>
      simp only [onDataFile, reported, writePending_eq, expressFollowing]
      split
      · exact Nat.le_succ _
      · split
        · exact Nat.le_refl _
        · exact Nat.le_succ _

theorem packets_step (moved : client.step ndn before event = some after) :
    after.currentPacket ≤ before.currentPacket + 1 := by
  simp only [Client.step, Option.ite_none_right_eq_some] at moved
  obtain ⟨_, moved⟩ := moved
  cases event with
  | data pending data now =>
      simp only [Option.ite_none_right_eq_some, Option.some.injEq] at moved
      obtain ⟨_, rfl⟩ := moved
      cases handler : pending.onData with
      | onData start => exact Nat.le_refl _
      | onDataFile segment => exact onDataFile_packets segment data (before.settle pending)
  | nack pending now =>
      simp only [Option.ite_none_right_eq_some, Option.some.injEq] at moved
      obtain ⟨_, rfl⟩ := moved
      unfold onNack
      split
      · exact Nat.le_succ _
      · split
        · split <;> exact Nat.le_succ _
        · exact Nat.le_succ _
  | timeout pending =>
      simp only [Option.ite_none_right_eq_some, Option.some.injEq] at moved
      obtain ⟨_, rfl⟩ := moved
      cases handler : pending.onTimeout with
      | onTimeout retries start =>
          simp only [handleTimeout, onTimeout]
          split <;> exact Nat.le_succ _
      | onTimeoutFile segment retries =>
          simp only [handleTimeout, onTimeoutFile]
          split <;> exact Nat.le_succ _
  | timer =>
      refine Option.some.inj moved ▸ ?_
      split <;> exact Nat.le_succ _

theorem packets_window (now : Int) (rounds : Nat) (state : State) :
    (client.expressWindow ndn now rounds state).currentPacket = state.currentPacket + rounds := by
  induction rounds generalizing state with
  | zero => rfl
  | succ rounds ih =>
      rw [expressWindow, ih]
      exact Nat.add_right_comm _ 1 rounds

theorem packets_start (opens : Bool) (now : Int) :
    (client.run ndn opens now .initial).currentPacket = client.window := by
  unfold run
  rw [packets_window]
  split <;> exact Nat.zero_add _

/-- Each event sends at most one Interest under a new name, so that a run stays
within `size_t` unless it is of nearly 2^64 events. -/
theorem packets_bounded {events : List Event}
    (ran : (client.system ndn opens).run (client.run ndn opens now .initial) events = some state) :
    state.currentPacket ≤ client.window + events.length := by
  have bounded := @System.run_records _ _ _ (fun past state => state.currentPacket ≤ client.window + past.length)
    (fun bounded moved => by
      rw [List.length_append, List.length_singleton]
      exact (packets_step moved).trans (Nat.succ_le_succ bounded))
    [] _ _ _ (packets_start opens now).le ran
  exact bounded

end Ndnperf.Cxx.Client

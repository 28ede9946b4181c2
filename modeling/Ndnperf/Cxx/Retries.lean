import Ndnperf.Cxx.Interests

namespace Ndnperf.Cxx.Client

open Ndn Library.Word Library.Transition

variable {ndn : NdnCxx} {client : Client} {opens : Bool} {state before after : State} {event : Event}
  {pending : Pending} {index : Nat} {now : Int} {past events : List Event}

/-! ## The index a segment is stored under -/

inductive Setback where
  | timeout
  | nack
deriving DecidableEq, Repr

/-- What an event does to the Interest of that name. -/
def Event.setback (name : Name) : Event → Option Setback
  | .timeout pending => if pending.interest.name = name then some .timeout else none
  | .nack pending _ => if pending.interest.name = name then some .nack else none
  | .data .. | .timer => none

def setbacks (name : Name) (events : List Event) : List Setback := events.filterMap (Event.setback name)

/-- What `onDataFile` is bound to: `onTimeoutFile` gets the index as an `int`,
and `onNack` reads it from the name again. -/
def storedIndex (index : Nat) (setbacks : List Setback) : Nat :=
  if setbacks.getLast? = some .timeout then uint64 (int32 index) else index

/-- The Interest for a segment, as the face holds it after some setbacks. -/
def asked (ndn : NdnCxx) (client : Client) (index : Nat) (setbacks : List Setback) (retries : Nat) : Pending where
  interest := { name := client.segmentName ndn index, mustBeFresh := true }
  onData := .onDataFile (storedIndex index setbacks)
  onTimeout := .onTimeoutFile (int32 index) retries

structure Tracked (ndn : NdnCxx) (client : Client) (past : List Event) (state : State) : Prop where
  face : ∀ pending ∈ state.face, ∃ index < state.currentPacket, ∃ retries,
    pending = asked ndn client index (setbacks (client.segmentName ndn index) past) retries
  distinct : (state.face.map (·.interest.name)).Nodup
  fresh : ∀ index, state.currentPacket ≤ index → index < 2 ^ 64 → setbacks (client.segmentName ndn index) past = []

theorem setbacks_append (name : Name) (past : List Event) (event : Event) :
    setbacks name (past ++ [event]) = setbacks name past ++ (event.setback name).toList := by
  simp only [setbacks, List.filterMap_append, List.filterMap_cons, List.filterMap_nil]
  cases event.setback name <;> rfl

/-- An event about one Interest leaves the others as they are. -/
theorem Tracked.settle (tracked : Tracked ndn client past state) (range : state.currentPacket ≤ 2 ^ 64)
    (member : pending ∈ state.face) (about : ∀ name, name ≠ pending.interest.name → event.setback name = none) :
    Tracked ndn client (past ++ [event]) (state.settle pending) := by
  have unchanged : ∀ name, name ≠ pending.interest.name → setbacks name (past ++ [event]) = setbacks name past := by
    intro name different
    rw [setbacks_append, about name different]
    exact List.append_nil _
  have listed : state.face.Nodup := tracked.distinct.of_map
  refine ⟨fun other kept => ?_, tracked.distinct.sublist (List.erase_sublist.map _), fun later above bound => ?_⟩
  · obtain ⟨different, kept⟩ := listed.mem_erase_iff.mp kept
    obtain ⟨index, below, retries, rfl⟩ := tracked.face other kept
    have apart : client.segmentName ndn index ≠ pending.interest.name := fun same =>
      different (List.inj_on_of_nodup_map tracked.distinct kept member same)
    exact ⟨index, below, retries, by rw [unchanged _ apart]⟩
  · obtain ⟨index, below, retries, rfl⟩ := tracked.face pending member
    have above : state.currentPacket ≤ later := above
    rw [unchanged, tracked.fresh later above bound]
    intro same
    have equal := segmentName_injective bound (below.trans_le range) same
    omega

/-- The Interest of a segment that no other one asks for. -/
theorem Tracked.express {retries : Nat} (tracked : Tracked ndn client past state) (below : index < state.currentPacket)
    (alone : ∀ other ∈ state.face, other.interest.name ≠ client.segmentName ndn index) :
    Tracked ndn client past
      (state.express (asked ndn client index (setbacks (client.segmentName ndn index) past) retries)) := by
  refine ⟨List.forall_mem_append.mpr ⟨tracked.face, ?_⟩, ?_, tracked.fresh⟩
  · exact List.forall_mem_singleton.mpr ⟨index, below, retries, rfl⟩
  · simp only [State.express, List.map_append, List.map_cons, List.map_nil]
    refine List.nodup_append.mpr ⟨tracked.distinct, List.nodup_singleton _, ?_⟩
    intro name listed last latest same
    obtain ⟨other, member, rfl⟩ := List.mem_map.mp listed
    exact alone other member (same.trans (List.mem_singleton.mp latest))

theorem Tracked.alone (tracked : Tracked ndn client past state) (member : pending ∈ state.face) :
    ∀ other ∈ (state.settle pending).face, other.interest.name ≠ pending.interest.name := by
  intro other kept same
  obtain ⟨different, kept⟩ := tracked.distinct.of_map.mem_erase_iff.mp kept
  exact different (List.inj_on_of_nodup_map tracked.distinct kept member same)

/-- A timeout or a Nack adds a setback and asks again. -/
theorem Tracked.resend {setback : Setback} (tracked : Tracked ndn client past state)
    (range : state.currentPacket ≤ 2 ^ 64) (member : pending ∈ state.face)
    (about : ∀ name, event.setback name = if pending.interest.name = name then some setback else none) :
    ∃ own < state.currentPacket, ∃ retries,
      pending = asked ndn client own (setbacks (client.segmentName ndn own) past) retries ∧
        ∀ left, Tracked ndn client (past ++ [event]) ((state.settle pending).express
          (asked ndn client own (setbacks (client.segmentName ndn own) past ++ [setback]) left)) := by
  obtain ⟨own, below, retries, same⟩ := tracked.face pending member
  refine ⟨own, below, retries, same, fun left => ?_⟩
  have named : pending.interest.name = client.segmentName ndn own := by rw [same]; rfl
  have settled : Tracked ndn client (past ++ [event]) (state.settle pending) :=
    tracked.settle range member fun name different => (about name).trans (if_neg different.symm)
  have again : Tracked ndn client (past ++ [event]) ((state.settle pending).express
      (asked ndn client own (setbacks (client.segmentName ndn own) (past ++ [event])) left)) :=
    settled.express below (named ▸ tracked.alone member)
  rw [setbacks_append, about, if_pos named] at again
  exact again

theorem Moves.packets_le (moved : Moves ndn client before event after) :
    before.currentPacket ≤ after.currentPacket := by
  cases moved with
  | @received pending data now index segment member asks named handler =>
      obtain faulted | ⟨_, _, _, _, _, ⟨_, completed⟩ | ⟨_, _, more⟩ | ⟨_, _, done⟩⟩ :=
        onDataFile_cases named segment (before.settle pending)
      · exact faulted ▸ Nat.le_refl _
      · exact completed ▸ Nat.le_refl _
      · exact more ▸ Nat.le_succ _
      · exact done ▸ Nat.le_refl _
  | refused | nacked | abandoned | retried | shown => exact Nat.le_refl _

theorem Tracked.moves (tracked : Tracked ndn client past before) (moved : Moves ndn client before event after)
    (range : after.currentPacket ≤ 2 ^ 64) : Tracked ndn client (past ++ [event]) after := by
  have earlier : before.currentPacket ≤ 2 ^ 64 := moved.packets_le.trans range
  cases moved with
  | @received pending data now index segment member asks named handler =>
      have settled : Tracked ndn client (past ++ [.data pending data now]) (before.settle pending) :=
        tracked.settle earlier member fun _ _ => rfl
      obtain faulted | ⟨_, _, _, _, _, ⟨_, completed⟩ | ⟨_, _, more⟩ | ⟨_, _, done⟩⟩ :=
        onDataFile_cases named segment (before.settle pending)
      · exact faulted ▸ { settled with }
      · exact completed ▸ { settled with }
      · rw [more]
        have unasked := settled.fresh before.currentPacket (Nat.le_refl _)
        rw [more] at range
        have small : before.currentPacket < 2 ^ 64 := range
        have alone : ∀ other ∈ (before.settle pending).face,
            other.interest.name ≠ client.segmentName ndn before.currentPacket := by
          intro other kept same
          obtain ⟨index, below, retries, rfl⟩ := settled.face other kept
          have below : index < before.currentPacket := below
          have equal := segmentName_injective (by omega) small same
          omega
        have grown : Tracked ndn client (past ++ [.data pending data now])
            { before.settle pending with currentPacket := before.currentPacket + 1 } := by
          refine ⟨fun other kept => ?_, settled.distinct,
            fun later above => settled.fresh later (Nat.le_of_succ_le above)⟩
          obtain ⟨index, below, retries, same⟩ := settled.face other kept
          exact ⟨index, Nat.lt_succ_of_lt below, retries, same⟩
        have expressed : Tracked ndn client (past ++ [.data pending data now]) (State.express _ (asked ndn client
            before.currentPacket (setbacks _ (past ++ [.data pending data now])) 5)) :=
          grown.express (Nat.lt_succ_self _) alone
        rw [unasked small] at expressed
        exact { expressed with }
      · exact done ▸ { settled with }
  | @refused pending now member status stops =>
      have settled : Tracked ndn client (past ++ [.nack pending now]) (before.settle pending) :=
        tracked.settle earlier member fun name different => if_neg different.symm
      exact { settled with }
  | @abandoned pending member status stops =>
      have settled : Tracked ndn client (past ++ [.timeout pending]) (before.settle pending) :=
        tracked.settle earlier member fun name different => if_neg different.symm
      exact { settled with }
  | @nacked pending now index segment member asks decoded =>
      have about : ∀ name, (Event.nack pending now).setback name =
          if pending.interest.name = name then some .nack else none := fun _ => rfl
      obtain ⟨own, below, retries, same, again⟩ := tracked.resend earlier member about
      have final : client.segmentName ndn index = client.segmentName ndn own := by
        rw [same] at asks
        exact (congrArg Interest.name asks.interest).symm
      rw [List.head_eq_of_cons_eq (List.append_cancel_left final),
        ndn.toSegment_fromSegment own (below.trans_le earlier), Option.some.injEq] at decoded
      have again := again 5
      rw [asked, storedIndex, List.getLast?_concat, if_neg (by simp)] at again
      rw [← decoded, show pending.interest = _ from congrArg Pending.interest same]
      exact again
  | @retried pending index bound retries member asks handler =>
      have about : ∀ name, (Event.timeout pending).setback name =
          if pending.interest.name = name then some .timeout else none := fun _ => rfl
      obtain ⟨own, below, _, same, again⟩ := tracked.resend earlier member about
      have narrowed : TimeoutHandler.onTimeoutFile (int32 own) _ = .onTimeoutFile bound (retries + 1) :=
        (congrArg Pending.onTimeout same).symm.trans handler
      obtain ⟨rfl, _⟩ := TimeoutHandler.onTimeoutFile.inj narrowed
      have again := again retries
      rw [asked, storedIndex, List.getLast?_concat, if_pos rfl] at again
      rw [show pending.interest = _ from congrArg Pending.interest same]
      exact again
  | shown =>
      have same : ∀ name, setbacks name (past ++ [.timer]) = setbacks name past := fun name =>
        (setbacks_append name past .timer).trans (List.append_nil _)
      exact ⟨fun pending member => by simpa only [same] using tracked.face pending member, tracked.distinct,
        fun later above bound => (same _).trans (tracked.fresh later above bound)⟩

theorem tracked_run (chosen : client.filePath ≠ []) (opens : Bool) (now : Int) (range : client.window ≤ 2 ^ 64) :
    Tracked ndn client [] (client.run ndn opens now .initial) := by
  rw [run_eq chosen]
  refine ⟨fun pending member => ?_, ?_, fun _ _ _ => rfl⟩
  · obtain ⟨index, inside, rfl⟩ := List.mem_map.mp member
    have below : index < client.window := by simpa using inside
    exact ⟨index, below, 5, rfl⟩
  · rw [List.map_map]
    refine List.Nodup.map_on (fun left leftInside right rightInside same => ?_) (List.nodup_range' ..)
    have leftBelow := (List.mem_range'_1.mp leftInside).2
    have rightBelow := (List.mem_range'_1.mp rightInside).2
    exact segmentName_injective (by omega) (by omega) same

/-- While the counter of segments is within `size_t`, each Interest is what its setbacks made of it. -/
theorem tracked_of_run (chosen : client.filePath ≠ [])
    (ran : (client.system ndn opens).run (client.run ndn opens now .initial) events = some state)
    (range : state.currentPacket ≤ 2 ^ 64) : Tracked ndn client events state := by
  have packets : (client.run ndn opens now .initial).currentPacket = client.window := by rw [run_eq chosen]
  have kept := @System.run_records _ _ (client.system ndn opens)
    (fun past state => Downloading ndn client state ∧ (state.currentPacket ≤ 2 ^ 64 → Tracked ndn client past state))
    (fun held moved => by
      have moves := (moves_of_step held.1 moved).2
      exact ⟨held.1.moves moves, fun range => (held.2 (moves.packets_le.trans range)).moves moves range⟩)
    [] _ _ _ ⟨downloading_run chosen opens now, fun small => tracked_run chosen opens now (packets ▸ small)⟩ ran
  exact kept.2 range

/-- In any order of Data, timeouts and Nacks, the Data of a segment is stored
under its index unless the last setback of its Interest was a timeout and the
index is one that an `int` loses. -/
theorem index_kept_iff (chosen : client.filePath ≠ [])
    (ran : (client.system ndn opens).run (client.run ndn opens now .initial) events = some state)
    (range : state.currentPacket ≤ 2 ^ 64) (member : pending ∈ state.face) :
    ∃ index < 2 ^ 64, ∃ stored, pending.interest.name.getLast? = some (ndn.fromSegment index) ∧
      pending.onData = .onDataFile stored ∧
      (stored = index ↔ index < 2 ^ 31 ∨ 2 ^ 64 - 2 ^ 31 ≤ index ∨
        (setbacks pending.interest.name events).getLast? ≠ some .timeout) := by
  obtain ⟨index, below, retries, rfl⟩ := (tracked_of_run chosen ran range).face pending member
  have bound : index < 2 ^ 64 := below.trans_le range
  refine ⟨index, bound, _, List.getLast?_concat, rfl, ?_⟩
  unfold storedIndex
  split
  · rename_i timeout
    rw [uint64_int32_iff bound]
    simp [asked, timeout]
  · rename_i other
    simp [asked, other]

/-- A Nack and a timeout of the same Interest. -/
def sampleSetbacks : List Event :=
  [.nack (sampleClient.request .reference 1 5) 0, .timeout (sampleClient.request .reference 1 5)]

theorem index_kept_sample :
    ∃ state pending, (sampleClient.system .reference true).run (sampleClient.run .reference true 0 .initial)
        sampleSetbacks = some state ∧ pending ∈ state.face ∧
      setbacks pending.interest.name sampleSetbacks = [.nack, .timeout] ∧
      ∃ index < 2 ^ 64, ∃ stored, pending.interest.name.getLast? = some (Reference.fromSegment index) ∧
        pending.onData = .onDataFile stored ∧
        (stored = index ↔ index < 2 ^ 31 ∨ 2 ^ 64 - 2 ^ 31 ≤ index ∨
          (setbacks pending.interest.name sampleSetbacks).getLast? ≠ some .timeout) := by
  have kept := fun state pending => @index_kept_iff .reference sampleClient true state pending 0
      sampleSetbacks (by decide)
  have ran : ∃ state, (sampleClient.system .reference true).run (sampleClient.run .reference true 0 .initial)
      sampleSetbacks = some state ∧ sampleClient.request .reference 1 4 ∈ state.face ∧ state.currentPacket = 2 :=
    ⟨_, rfl, by decide, rfl⟩
  obtain ⟨state, ran, member, packets⟩ := ran
  refine ⟨state, _, ran, member, by decide, kept state _ ran ?_ member⟩
  rw [packets]
  decide

theorem run_retried {bound : Int} {retries : Nat} (running : before.status = .running)
    (member : pending ∈ before.face) (handler : pending.onTimeout = .onTimeoutFile bound (retries + 1)) :
    (client.system ndn opens).run before [.timeout pending] = some ((before.settle pending).express
      { interest := pending.interest, onData := .onDataFile (uint64 bound),
        onTimeout := .onTimeoutFile bound retries }) := by
  simp only [System.run_singleton, system, step, running, member, handler, if_true, handleTimeout, onTimeoutFile,
    Nat.zero_lt_succ, Nat.add_sub_cancel]

/-- A window that reaches the first index an `int` loses. -/
def wideClient : Client := { sampleClient with window := 2 ^ 31 + 1 }

/-- The first timeout of segment 2^31. -/
theorem index_lost :
    ∃ state pending, (wideClient.system .reference true).run (wideClient.run .reference true 0 .initial)
        [.timeout (wideClient.request .reference (2 ^ 31) 5)] = some state ∧ pending ∈ state.face ∧
      pending.interest.name.getLast? = some (Reference.fromSegment (2 ^ 31)) ∧
      pending.onData = .onDataFile (2 ^ 64 - 2 ^ 31) := by
  have running : (wideClient.run .reference true 0 .initial).status = .running := by
    rw [run_eq (by decide)]
    rfl
  have member : wideClient.request .reference (2 ^ 31) 5 ∈ (wideClient.run .reference true 0 .initial).face := by
    rw [run_eq (by decide)]
    exact List.mem_map_of_mem (List.mem_range'_1.mpr (by decide))
  have handler : (wideClient.request .reference (2 ^ 31) 5).onTimeout =
      .onTimeoutFile (int32 (2 ^ 31 : Nat)) (4 + 1) := rfl
  have narrowed : uint64 (int32 (2 ^ 31 : Nat)) = 2 ^ 64 - 2 ^ 31 := by decide
  refine ⟨_, _, run_retried running member handler, List.mem_append_right _ (List.mem_singleton_self _), ?_, ?_⟩
  · exact List.getLast?_concat
  · exact congrArg DataHandler.onDataFile narrowed

end Ndnperf.Cxx.Client

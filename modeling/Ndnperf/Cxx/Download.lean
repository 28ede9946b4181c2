import Ndnperf.Cxx.ClientInvariant
import Ndnperf.Cxx.ServerProperties

namespace Ndnperf.Cxx.Download

open Ndn Library Library.Word Library.Transition Library.Segmentation

/-! A client downloading from a server. The Data that answers an Interest is
whatever one of the server's threads makes of its name, after whatever that
thread has served before. -/

variable (ndn : NdnCxx) (server : Server) (client : Client) (content : Bytes)

inductive Event where
  | answer (pending : Pending) (history : Server.History) (fileSystem : FileSystem) (queueTime processingTime now : Int)
  | nack (pending : Pending) (now : Int)
  | timeout (pending : Pending)
  | timer

def reply (history : Server.History) (fileSystem : FileSystem) (name : Name) (queueTime processingTime : Int) :
    Except Fault Data := do
  let worker ← history.worker ndn server
  let (data, _) ← server.process ndn fileSystem { name, queueTime, processingTime } worker
  return data

/-- The event as the client sees it; a request that stops its thread is never answered. -/
def clientEvent : Event → Option Client.Event
  | .answer pending history fileSystem queueTime processingTime now =>
      match reply ndn server history fileSystem pending.interest.name queueTime processingTime with
      | .ok data => some (.data pending data now)
      | .error _ => none
  | .nack pending now => some (.nack pending now)
  | .timeout pending => some (.timeout pending)
  | .timer => some .timer

/-- The path a server with the same prefix opens for every Interest of the client. -/
def servedPath : Bytes := (ndn.nameToUri (ndn.nameOfUri client.filePath)).drop 1

/-- The served file stays as it is, Nacks are tolerated and timeouts have retries left. -/
def Undisturbed : Event → Prop
  | .answer _ _ fileSystem _ _ _ => fileSystem (servedPath ndn client) = some (.regular content)
  | .nack _ _ => client.exitOnNack = false
  | .timeout pending => 0 < pending.onTimeout.retries
  | .timer => True

instance (event : Event) : Decidable (Undisturbed ndn client content event) :=
  match event with
  | .answer .. => inferInstanceAs (Decidable (_ = _))
  | .nack .. => inferInstanceAs (Decidable (_ = _))
  | .timeout _ => inferInstanceAs (Decidable (_ < _))
  | .timer => inferInstanceAs (Decidable True)

def system (opens : Bool) : System Client.State Event :=
  System.guarded
    { start := (client.system ndn opens).start
      step := fun state event => (clientEvent ndn server event).bind (client.step ndn state) }
    fun _ => Undisturbed ndn client content

variable {ndn server client content} {opens : Bool} {last index : Nat} {state after : Client.State} {event : Event}
  {fileSystem : FileSystem} {pending : Pending} {history : Server.History} {queueTime processingTime : Int}
  {data : Data}

/-! ## The server's answers -/

theorem plain_download : Plain (ascii "download") := by decide

theorem segmentName_eq (index : Nat) :
    client.segmentName ndn index =
      client.namePrefix ++ .generic (ascii "download") ::
        (ndn.nameOfUri client.filePath ++ [ndn.fromSegment index]) := by
  simp [Client.segmentName, Client.baseName, ndn.nameOfUri_plain _ plain_download]

theorem filePath_segmentName (same : server.namePrefix = client.namePrefix) (index : Nat) :
    server.filePath ndn (client.segmentName ndn index) = servedPath ndn client := by
  have names : client.segmentName ndn index =
      (server.namePrefix ++ [.generic (ascii "download")]) ++
        (ndn.nameOfUri client.filePath ++ [ndn.fromSegment index]) := by
    simp [segmentName_eq, same]
  rw [Server.filePath, names, List.drop_left' (by simp), List.dropLast_concat, servedPath]

theorem asksFor_segmentName (same : server.namePrefix = client.namePrefix) (bound : index < 2 ^ 64)
    (found : fileSystem (servedPath ndn client) = some (.regular content)) (size : content.length < 2 ^ 63) :
    Server.AsksFor ndn server fileSystem (client.segmentName ndn index) index content where
  selected := ⟨.generic (ascii "download"), by simp [segmentName_eq, same], ndn.componentToUri_plain _ plain_download⟩
  numbered := ⟨ndn.fromSegment index, by simp [Client.segmentName], ndn.toSegment_fromSegment index bound⟩
  found := filePath_segmentName same index ▸ found
  size := size

theorem uint64_lastSegmentOf {length payloadSize : Nat} (nonempty : 1 ≤ length) (size : length < 2 ^ 63) :
    uint64 (Server.lastSegmentOf length payloadSize) = lastIndex payloadSize length := by
  have smaller : (length - 1) / payloadSize ≤ length - 1 := Nat.div_le_self _ _
  have widened : uint64 ((length : Int) - 1) = length - 1 := by
    rw [uint64_of_bounds (by omega) (by omega)]
    omega
  rw [Server.lastSegmentOf, widened, lastIndex]
  generalize (length - 1) / payloadSize = quotient at smaller
  rw [int64_of_bounds (by omega) (by omega), uint64_natCast]
  omega

theorem reply_segment (same : server.namePrefix = client.namePrefix) (positive : 1 ≤ server.payloadSize)
    (nonempty : 1 ≤ content.length) (size : content.length < 2 ^ 63)
    (found : fileSystem (servedPath ndn client) = some (.regular content)) (bound : index < 2 ^ 64)
    (offset : index * server.payloadSize < 2 ^ 64)
    (replied : reply ndn server history fileSystem (client.segmentName ndn index) queueTime processingTime = .ok data) :
    data.content = segment server.payloadSize index content ∧
      data.finalBlock.bind ndn.toSegment = some (lastIndex server.payloadSize content.length) := by
  simp only [reply, bind, pure, Except.pure, Outcome.bind_eq_ok, Except.ok.injEq] at replied
  obtain ⟨worker, reached, ⟨_, next⟩, answered, rfl⟩ := replied
  obtain ⟨after, expected⟩ := Server.process_regular { name := client.segmentName ndn index, queueTime, processingTime }
    (Server.History.worker_idle reached) positive (asksFor_segmentName same bound found size)
  rw [answered, Except.ok.injEq, Prod.mk.injEq] at expected
  have lastBound : lastIndex server.payloadSize content.length < 2 ^ 64 := by
    have smaller : lastIndex server.payloadSize content.length ≤ content.length - 1 := Nat.div_le_self _ _
    omega
  rw [expected.1]
  constructor
  · simp only [Nat.mod_eq_of_lt offset]
    rfl
  · simp only [uint64_lastSegmentOf nonempty size, Option.bind_some]
    exact ndn.toSegment_fromSegment _ lastBound

/-! ## The whole download -/

/-- A client, a server and a file that meet: one prefix, sizes within 64 bits,
indices within 31. -/
structure Meets (ndn : NdnCxx) (server : Server) (client : Client) (content : Bytes) : Prop where
  same : server.namePrefix = client.namePrefix
  chosen : client.filePath ≠ []
  nonempty : 1 ≤ content.length
  size : content.length < 2 ^ 63
  payload : 1 ≤ server.payloadSize
  positive : 1 ≤ client.window
  windowSize : client.window * server.payloadSize < 2 ^ 63
  window : client.window ≤ 2 ^ 31
  segments : segmentCount server.payloadSize content.length ≤ 2 ^ 31

theorem Meets.segments_eq (meets : Meets ndn server client content) :
    segmentCount server.payloadSize content.length = lastIndex server.payloadSize content.length + 1 :=
  segmentCount_eq_lastIndex meets.payload meets.nonempty

/-- Every segment the client can ask for, also those past the end, has an
offset that fits, because the window and the last segment do. -/
theorem Meets.offset (meets : Meets ndn server client content)
    (asked : index < max client.window (lastIndex server.payloadSize content.length + 1)) :
    index < 2 ^ 64 ∧ index * server.payloadSize < 2 ^ 64 := by
  have window := meets.window
  have segments := meets.segments_eq ▸ meets.segments
  refine ⟨by omega, ?_⟩
  rcases Nat.lt_or_ge index client.window with early | late
  · have scaled := Nat.mul_le_mul_right server.payloadSize (Nat.le_of_lt early)
    have bound := meets.windowSize
    omega
  · have scaled : index * server.payloadSize ≤ lastIndex server.payloadSize content.length * server.payloadSize :=
      Nat.mul_le_mul_right _ (by omega)
    have inside : lastIndex server.payloadSize content.length * server.payloadSize < content.length :=
      lastIndex_mul_lt meets.nonempty
    have size := meets.size
    omega

def Carries (server : Server) (content : Bytes) (index : Nat) (data : Data) : Prop :=
  data.content = segment server.payloadSize index content

theorem clientEvent_fair (meets : Meets ndn server client content) {image : Fetch.State}
    {arrived : Nat → Option Data} {Valid : Nat → Data → Prop} {seen : Client.Event}
    (live : Client.Live ndn client opens (lastIndex server.payloadSize content.length) Valid state image arrived)
    (wellFormed : Fetch.WellFormed client.window (lastIndex server.payloadSize content.length + 1) image)
    (undisturbed : Undisturbed ndn client content event) (relayed : clientEvent ndn server event = some seen)
    (moved : client.step ndn state seen = some after) :
    Client.Cooperative ndn client (lastIndex server.payloadSize content.length) seen ∧
      Client.Delivers ndn client (lastIndex server.payloadSize content.length) (Carries server content) seen := by
  cases event with
  | answer pending history fileSystem queueTime processingTime now =>
      simp only [clientEvent] at relayed
      split at relayed
      · rename_i data replied
        obtain rfl := Option.some.inj relayed
        simp only [Client.step, live.running, if_true, Option.ite_none_right_eq_some] at moved
        obtain ⟨⟨member, named⟩, _⟩ := moved
        have served : ∀ index < max client.window (lastIndex server.payloadSize content.length + 1),
            pending.interest.name = client.segmentName ndn index →
              data.content = segment server.payloadSize index content ∧
                data.finalBlock.bind ndn.toSegment = some (lastIndex server.payloadSize content.length) := by
          intro index asked name
          obtain ⟨bound, offset⟩ := meets.offset asked
          exact reply_segment meets.same meets.payload meets.nonempty meets.size undisturbed bound offset
            (name ▸ replied)
        constructor
        · obtain ⟨index, inside, retries, rfl⟩ := live.face.mem member
          have asked := Nat.lt_of_lt_of_le (Fetch.State.mem_outstanding.mp inside).1 wellFormed.bounded
          exact (served index asked rfl).2
        · intro index asked name
          exact (served index asked (named ▸ name)).1
      · cases relayed
  | nack pending now =>
      obtain rfl := Option.some.inj relayed
      exact ⟨undisturbed, trivial⟩
  | timeout pending =>
      obtain rfl := Option.some.inj relayed
      exact ⟨undisturbed, trivial⟩
  | timer =>
      obtain rfl := Option.some.inj relayed
      exact ⟨trivial, trivial⟩

/-- Both programs together simulate the abstract window of requests, and every
Data that arrives carries its segment. -/
theorem system_simulates (meets : Meets ndn server client content) :
    System.Simulation (system ndn server client content opens)
      (Fetch.system client.window (lastIndex server.payloadSize content.length + 1))
      fun state image =>
        (∃ arrived, Client.Live ndn client opens (lastIndex server.payloadSize content.length)
          (Carries server content) state image arrived) ∨
        ∃ arrived, Client.Completed opens (lastIndex server.payloadSize content.length) (Carries server content)
          state arrived := by
  have segments := meets.segments_eq ▸ meets.segments
  constructor
  · intro state held
    obtain ⟨now, rfl⟩ := held
    exact ⟨_, rfl, .inl ⟨_, Client.live_run meets.chosen opens now⟩⟩
  · rintro before event after image earlier (⟨arrived, live⟩ | ⟨arrived, completed⟩) moved <;>
      obtain ⟨undisturbed, moved⟩ := System.guarded_step.mp moved <;>
      obtain ⟨seen, relayed, moved⟩ := Option.bind_eq_some_iff.mp moved
    · have wellFormed := Fetch.wellFormed earlier
      obtain ⟨cooperative, delivers⟩ := clientEvent_fair meets live wellFormed undisturbed relayed moved
      rcases Client.live_step live wellFormed meets.window segments cooperative delivers moved with
        same | ⟨index, next, arrived, answered, alive⟩ | completed
      · exact .inl (.inl same)
      · exact .inr ⟨index, next, answered, .inl ⟨arrived, alive⟩⟩
      · exact .inl (.inr completed)
    · simp [Client.step, completed.exited] at moved

theorem completed_content {arrived : Nat → Option Data} (positive : 1 ≤ server.payloadSize)
    (completed : Client.Completed true (lastIndex server.payloadSize content.length) (Carries server content) state
      arrived) : state.file.content = content := by
  have written := completed.written rfl
  have chunks : state.file.written =
      (List.range state.currentSegment).map fun index => segment server.payloadSize index content := by
    refine List.map_injective_iff.mpr (Option.some_injective _) (written.trans ?_)
    rw [List.map_map]
    refine List.map_congr_left fun index member => ?_
    obtain ⟨data, found⟩ := Option.isSome_iff_exists.mp (completed.delivered index (List.mem_range.mp member))
    rw [found, Option.map_some, completed.valid index data found]
    rfl
  rw [OfStream.content, chunks, ← List.flatMap_def]
  exact flatMap_segment_all (length_le_of_lastIndex_lt positive completed.finished)

/-- Whatever the order of answers, Nacks and timeouts, a client that exits with
"download completed" has written exactly the served file. -/
theorem download_correct (meets : Meets ndn server client content)
    (reached : (system ndn server client content true).Reachable state) (completed : state.status = .exited 0) :
    state.file.content = content := by
  obtain ⟨_, _, ⟨arrived, live⟩ | ⟨arrived, finished⟩⟩ := (system_simulates meets).reachable reached
  · exact absurd (live.running.symm.trans completed) (by decide)
  · exact completed_content meets.payload finished

/-- Both Interests of a window of two for a one-segment file, the one past the end answered first. -/
def sampleRun : List Event :=
  [1, 0].map fun index =>
    .answer (Client.sampleClient.request .reference index 5) { stack := [], served := [] } Server.sampleFiles 0 0 0

theorem meets_sample : Meets .reference (Server.sampleServer 4) Client.sampleClient [65] :=
  ⟨rfl, by decide, by decide, by decide, by decide, by decide, by decide, by decide, by decide⟩

theorem download_correct_sample :
    ∃ state, (system .reference (Server.sampleServer 4) Client.sampleClient [65] true).run
        (Client.sampleClient.run .reference true 0 .initial) sampleRun = some state ∧
      state.file.content = [65] := by
  have completed : ((system .reference (Server.sampleServer 4) Client.sampleClient [65] true).run
      (Client.sampleClient.run .reference true 0 .initial) sampleRun).map (·.status) = some (.exited 0) := rfl
  obtain ⟨state, ran, exited⟩ := Option.map_eq_some_iff.mp completed
  exact ⟨state, ran, download_correct meets_sample (System.Reachable.run (.start ⟨0, rfl⟩) ran) exited⟩

end Ndnperf.Cxx.Download

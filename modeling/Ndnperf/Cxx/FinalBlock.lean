import Ndnperf.Cxx.Download

namespace Ndnperf.Cxx.Download

open Ndn Library Library.Word Library.Transition Library.Segmentation

/-! The final block a reply carries: what it tells the client, and what the client makes of it. -/

variable {ndn : NdnCxx} {server : Server} {client : Client} {fileSystem : FileSystem} {request : Request}
  {worker : Worker} {content : Bytes} {segment index : Nat} {opens : Bool} {state before after : Client.State}
  {pending : Pending} {data : Data}

/-! ## The number of the last segment -/

theorem uint64_int64 {value : Nat} (bound : value < 2 ^ 64) : uint64 (int64 value) = value := by
  rw [int64_natCast bound, uint64]
  split <;> omega

/-- The division is one of unsigned numbers, whatever the sign of the dividend. -/
theorem uint64_lastSegmentOf_eq (length payloadSize : Nat) :
    uint64 (Server.lastSegmentOf length payloadSize) = uint64 ((length : Int) - 1) / payloadSize := by
  have bounded : uint64 ((length : Int) - 1) < 2 ^ 64 := by
    rw [uint64]
    omega
  rw [Server.lastSegmentOf, uint64_int64 (Nat.lt_of_le_of_lt (Nat.div_le_self _ _) bounded)]

/-- For an empty file the dividend is the largest number there is, and so no
payload size gives segment zero. -/
theorem lastSegmentOf_empty {payloadSize : Nat} (positive : 1 ≤ payloadSize) (size : payloadSize < 2 ^ 64) :
    uint64 (Server.lastSegmentOf 0 payloadSize) ≠ 0 := by
  have wrapped : uint64 (((0 : Nat) : Int) - 1) = 2 ^ 64 - 1 := by decide
  rw [uint64_lastSegmentOf_eq, wrapped]
  have quotient : 1 ≤ (2 ^ 64 - 1) / payloadSize := (Nat.one_le_div_iff positive).mpr (by omega)
  omega

theorem uint64_lastSegmentOf_lt (length payloadSize : Nat) :
    uint64 (Server.lastSegmentOf length payloadSize) < 2 ^ 64 := by
  rw [uint64]
  omega

/-- The final block names the last segment that carries data, segment zero for an empty file. -/
def LastSegmentLaw (ndn : NdnCxx) (server : Server) (fileSystem : FileSystem) (request : Request)
    (worker : Worker) (content : Bytes) : Prop :=
  ∃ data after, server.process ndn fileSystem request worker = .ok (data, after) ∧
    data.finalBlock = some (ndn.fromSegment (segmentCount server.payloadSize content.length - 1))

theorem lastSegmentLaw_iff (idle : worker.file.isOpen = false) (positive : 1 ≤ server.payloadSize)
    (size : server.payloadSize < 2 ^ 64) (asks : Server.AsksFor ndn server fileSystem request.name segment content) :
    LastSegmentLaw ndn server fileSystem request worker content ↔ 1 ≤ content.length := by
  obtain ⟨after, answered⟩ := Server.process_regular request idle positive asks
  constructor
  · intro held
    obtain ⟨data, _, same, law⟩ := held
    by_contra empty
    have vacant : content.length = 0 := by omega
    rw [answered, Except.ok.injEq, Prod.mk.injEq] at same
    rw [← same.1, vacant, segmentCount, Nat.div_eq_of_lt (by omega), Option.some.injEq] at law
    exact lastSegmentOf_empty positive size
      (ndn.fromSegment_injective (uint64_lastSegmentOf_lt _ _) (by norm_num) law)
  · intro nonempty
    refine ⟨_, after, answered, ?_⟩
    rw [uint64_lastSegmentOf nonempty asks.size, segmentCount_eq_lastIndex positive nonempty]
    rfl

/-! ## How many segments are asked for -/

section Runs

variable (ndn : NdnCxx) (server : Server) (client : Client) (content : Bytes)

/-- Both programs, with Nacks that end the client and timeouts that find no retries left. -/
def joined (opens : Bool) : System Client.State Event where
  start := (client.system ndn opens).start
  step state event := (clientEvent ndn server event).bind (client.step ndn state)

/-- The path the client's Interests lead to holds the file at every request. -/
def Served : Event → Prop
  | .answer _ _ fileSystem _ _ _ => fileSystem (servedPath ndn client) = some (.regular content)
  | .nack _ _ | .timeout _ | .timer => True

instance (event : Event) : Decidable (Served ndn client content event) :=
  match event with
  | .answer .. => inferInstanceAs (Decidable (_ = _))
  | .nack .. | .timeout _ | .timer => inferInstanceAs (Decidable True)

def serving (opens : Bool) : System Client.State Event :=
  (joined ndn server client opens).guarded fun _ => Served ndn client content

/-- No more segments than the window or the file has were asked for. -/
structure RequestsBounded (ndn : NdnCxx) (client : Client) (count : Nat) (state : Client.State) : Prop where
  packets : state.currentPacket ≤ max client.window count
  asked : ∀ pending ∈ state.face, ∃ index < state.currentPacket, pending.interest.name = client.segmentName ndn index

structure Asking (ndn : NdnCxx) (client : Client) (count : Nat) (state : Client.State) : Prop where
  downloading : state.download = true
  bounded : RequestsBounded ndn client count state
  onData : ∀ pending ∈ state.face, ∃ segment, pending.onData = .onDataFile segment
  onTimeout : ∀ pending ∈ state.face, ∃ segment retries, pending.onTimeout = .onTimeoutFile segment retries

end Runs

variable {count : Nat}

/-- Only the mode, the counter and the face matter. -/
theorem Asking.frame (asking : Asking ndn client count before) (download : after.download = before.download)
    (packet : after.currentPacket = before.currentPacket) (face : after.face = before.face) :
    Asking ndn client count after := by
  obtain ⟨downloading, ⟨packets, asked⟩, onData, onTimeout⟩ := asking
  exact ⟨download.trans downloading, ⟨packet ▸ packets, by rwa [face, packet]⟩, by rwa [face], by rwa [face]⟩

theorem Asking.settle (asking : Asking ndn client count state) (pending : Pending) :
    Asking ndn client count (state.settle pending) where
  downloading := asking.downloading
  bounded := ⟨asking.bounded.packets, fun other kept => asking.bounded.asked other (List.mem_of_mem_erase kept)⟩
  onData other kept := asking.onData other (List.mem_of_mem_erase kept)
  onTimeout other kept := asking.onTimeout other (List.mem_of_mem_erase kept)

/-- Asking again for a segment that was asked for before. -/
theorem Asking.express (asking : Asking ndn client count state)
    (named : ∃ index < state.currentPacket, pending.interest.name = client.segmentName ndn index)
    (onData : ∃ segment, pending.onData = .onDataFile segment)
    (onTimeout : ∃ segment retries, pending.onTimeout = .onTimeoutFile segment retries) :
    Asking ndn client count (state.express pending) := by
  have split : ∀ other ∈ (state.express pending).face, other ∈ state.face ∨ other = pending := fun other member =>
    (List.mem_append.mp member).imp_right List.mem_singleton.mp
  refine ⟨asking.downloading, ⟨asking.bounded.packets, ?_⟩, ?_, ?_⟩ <;> intro other member <;>
    rcases split other member with earlier | rfl
  · exact asking.bounded.asked other earlier
  · exact named
  · exact asking.onData other earlier
  · exact onData
  · exact asking.onTimeout other earlier
  · exact onTimeout

/-- The one place where a new segment is asked for: only while the last one has not been. -/
theorem Asking.expressFollowing (asking : Asking ndn client count state) (reported : state.maxSegment + 1 = count)
    (named : data.name = client.segmentName ndn index) :
    Asking ndn client count (Client.expressFollowing ndn data state) := by
  rw [Client.expressFollowing_eq named]
  split
  · rename_i more
    have grown : Asking ndn client count { state with currentPacket := state.currentPacket + 1 } := by
      refine ⟨asking.downloading, ⟨show state.currentPacket + 1 ≤ _ by omega, ?_⟩, asking.onData, asking.onTimeout⟩
      intro other member
      obtain ⟨index, below, name⟩ := asking.bounded.asked other member
      exact ⟨index, Nat.lt_succ_of_lt below, name⟩
    exact grown.express ⟨state.currentPacket, Nat.lt_succ_self _, rfl⟩ ⟨_, rfl⟩ ⟨_, _, rfl⟩
  · exact asking

theorem asking_run (chosen : client.filePath ≠ []) (opens : Bool) (now : Int) :
    Asking ndn client count (client.run ndn opens now .initial) := by
  have live := @Client.live_run ndn client 0 (fun _ _ => True) chosen opens now
  have packets : (client.run ndn opens now .initial).currentPacket = client.window := live.issued
  refine ⟨live.downloading, ⟨by rw [packets]; exact Nat.le_max_left _ _, ?_⟩, ?_, ?_⟩ <;> intro pending member <;>
    obtain ⟨index, inside, retries, rfl⟩ := live.face.mem member
  · exact ⟨index, packets ▸ (Fetch.State.mem_outstanding.mp inside).1, rfl⟩
  · exact ⟨_, rfl⟩
  · exact ⟨_, _, rfl⟩

theorem Asking.step {last : Nat} {event : Client.Event} (asking : Asking ndn client (last + 1) before)
    (reported : ∀ pending data now, event = .data pending data now → pending ∈ before.face →
      data.finalBlock.bind ndn.toSegment = some last)
    (moved : client.step ndn before event = some after) : Asking ndn client (last + 1) after := by
  simp only [Client.step] at moved
  split at moved
  · cases event with
    | data pending data now =>
        simp only [Option.ite_none_right_eq_some, Option.some.injEq] at moved
        obtain ⟨⟨member, named⟩, rfl⟩ := moved
        obtain ⟨index, below, name⟩ := asking.bounded.asked pending member
        obtain ⟨segment, handler⟩ := asking.onData pending member
        have settled := asking.settle pending
        rw [handler, Client.handleData, Client.onDataFile_eq (reported pending data now rfl member)]
        simp only
        split
        · exact settled.frame rfl rfl rfl
        · exact Asking.expressFollowing (settled.frame rfl rfl rfl) rfl (named.trans name)
    | nack pending now =>
        simp only [Option.ite_none_right_eq_some, Option.some.injEq] at moved
        obtain ⟨member, rfl⟩ := moved
        have settled := asking.settle pending
        rw [Client.onNack, if_pos settled.downloading]
        split
        · exact settled.frame rfl rfl rfl
        · split
          · exact settled.express (asking.bounded.asked pending member) ⟨_, rfl⟩ ⟨_, _, rfl⟩
          · exact settled.frame rfl rfl rfl
    | timeout pending =>
        simp only [Option.ite_none_right_eq_some, Option.some.injEq] at moved
        obtain ⟨member, rfl⟩ := moved
        have settled := asking.settle pending
        obtain ⟨segment, retries, handler⟩ := asking.onTimeout pending member
        simp only [handler, Client.handleTimeout, Client.onTimeoutFile]
        split
        · exact settled.express (asking.bounded.asked pending member) ⟨_, rfl⟩ ⟨_, _, rfl⟩
        · exact settled.frame rfl rfl rfl
    | timer =>
        simp only [asking.downloading, if_true, Option.some.injEq] at moved
        subst moved
        exact asking.frame rfl rfl rfl
  · cases moved

/-- A reply that comes at all reports the last segment, whatever number was asked for. -/
theorem reply_lastSegment {history : Server.History} {queueTime processingTime : Int}
    (same : server.namePrefix = client.namePrefix) (positive : 1 ≤ server.payloadSize) (nonempty : 1 ≤ content.length)
    (size : content.length < 2 ^ 63) (found : fileSystem (servedPath ndn client) = some (.regular content))
    (replied : reply ndn server history fileSystem (client.segmentName ndn index) queueTime processingTime = .ok data) :
    data.finalBlock.bind ndn.toSegment = some (lastIndex server.payloadSize content.length) := by
  simp only [reply, bind, pure, Except.pure, Outcome.bind_eq_ok, Except.ok.injEq] at replied
  obtain ⟨worker, reached, ⟨_, next⟩, answered, rfl⟩ := replied
  have idle := Server.History.worker_idle reached
  have found : fileSystem (server.filePath ndn (client.segmentName ndn index)) = some (.regular content) :=
    filePath_segmentName same index ▸ found
  obtain ⟨selector, here, parts⟩ := (Server.succeeds_process idle).mp ⟨_, answered⟩
  have chosen : selector = .generic (ascii "download") := by simpa [segmentName_eq, same] using here.symm
  have named : ndn.componentToUri selector = ascii "download" := chosen ▸ ndn.componentToUri_plain _ plain_download
  obtain ⟨_, last, final, numbered⟩ := parts named (by rw [found]; rfl)
  obtain ⟨segment, decoded⟩ := Option.isSome_iff_exists.mp numbered
  have asks : Server.AsksFor ndn server fileSystem (client.segmentName ndn index) segment content :=
    ⟨⟨selector, here, named⟩, ⟨last, final, decoded⟩, found, size⟩
  obtain ⟨after, expected⟩ := Server.process_regular
    { name := client.segmentName ndn index, queueTime, processingTime } idle positive asks
  rw [answered, Except.ok.injEq, Prod.mk.injEq] at expected
  rw [expected.1, uint64_lastSegmentOf nonempty size]
  apply ndn.toSegment_fromSegment _
  have smaller : lastIndex server.payloadSize content.length ≤ content.length - 1 := Nat.div_le_self _ _
  omega

theorem asking_inductive (same : server.namePrefix = client.namePrefix) (chosen : client.filePath ≠ [])
    (positive : 1 ≤ server.payloadSize) (nonempty : 1 ≤ content.length) (size : content.length < 2 ^ 63) :
    (serving ndn server client content opens).Inductive
      (Asking ndn client (lastIndex server.payloadSize content.length + 1)) := by
  constructor
  · intro state held
    obtain ⟨now, rfl⟩ := held
    exact asking_run chosen opens now
  · intro before event after asking moved
    obtain ⟨served, moved⟩ := System.guarded_step.mp moved
    obtain ⟨seen, relayed, moved⟩ := Option.bind_eq_some_iff.mp moved
    refine asking.step (fun pending data now here member => ?_) moved
    subst here
    cases event with
    | answer asked history fileSystem queueTime processingTime now =>
        simp only [clientEvent] at relayed
        split at relayed
        · rename_i reported replied
          cases relayed
          obtain ⟨index, _, name⟩ := asking.bounded.asked pending member
          exact reply_lastSegment same positive nonempty size served (name ▸ replied)
        · cases relayed
    | nack | timeout | timer => cases relayed

/-- The number of the last segment is right, and bounds what a client asks for,
for exactly the files that are not empty. -/
theorem last_segment_law_iff {history : Server.History} (reached : history.worker ndn server = .ok worker)
    (positive : 1 ≤ server.payloadSize) (size : server.payloadSize < 2 ^ 64)
    (asks : Server.AsksFor ndn server fileSystem request.name segment content) :
    (LastSegmentLaw ndn server fileSystem request worker content ∧
      ∀ (client : Client) (opens : Bool) (state : Client.State), server.namePrefix = client.namePrefix →
        client.filePath ≠ [] → (serving ndn server client content opens).Reachable state →
        RequestsBounded ndn client (segmentCount server.payloadSize content.length) state) ↔
      1 ≤ content.length := by
  rw [lastSegmentLaw_iff (Server.History.worker_idle reached) positive size asks]
  refine and_iff_left_of_imp fun nonempty client opens state same chosen reached => ?_
  rw [segmentCount_eq_lastIndex positive nonempty]
  exact ((asking_inductive same chosen positive nonempty asks.size).reachable reached).bounded

theorem last_segment_law_sample :
    LastSegmentLaw .reference (Server.sampleServer 4) Server.sampleFiles
      (Server.plainRequest (Server.downloadName (Reference.fromSegment 0))) (.start []) [65] := by
  have fresh : ({ stack := [], served := [] } : Server.History).worker .reference (Server.sampleServer 4) =
      .ok (.start []) := rfl
  exact ((last_segment_law_iff fresh (by decide) (by decide) (Server.asksFor_sample 0 (by decide))).mpr (by decide)).1

def emptyFiles : FileSystem := fun path => if path = ascii "a" then some (.regular []) else none

/-- Segment zero of an empty file, four bytes to a packet: the reply names
segment 2^62 - 1 the last one, and a client with a window of two asks for a third segment. -/
theorem last_segment_law_fails :
    (∃ data after, (Server.sampleServer 4).process .reference emptyFiles
        (Server.plainRequest (Server.downloadName (Reference.fromSegment 0))) (.start []) = .ok (data, after) ∧
        data.finalBlock = some (Reference.fromSegment (2 ^ 62 - 1))) ∧
      ¬LastSegmentLaw .reference (Server.sampleServer 4) emptyFiles
        (Server.plainRequest (Server.downloadName (Reference.fromSegment 0))) (.start []) [] ∧
      ∃ state, (serving .reference (Server.sampleServer 4) Client.sampleClient [] true).Reachable state ∧
        state.status = .running ∧ ¬RequestsBounded .reference Client.sampleClient (segmentCount 4 0) state := by
  have asks : Server.AsksFor .reference (Server.sampleServer 4) emptyFiles
      (Server.downloadName (Reference.fromSegment 0)) 0 [] :=
    ⟨⟨.generic (ascii "download"), rfl, by decide⟩, ⟨Reference.fromSegment 0, rfl, by decide⟩, rfl, by decide⟩
  have idle : (Worker.start []).file.isOpen = false := rfl
  refine ⟨?_, ?_, ?_⟩
  · obtain ⟨after, answered⟩ := Server.process_regular
      (Server.plainRequest (Server.downloadName (Reference.fromSegment 0))) idle (by decide) asks
    have number : uint64 (Server.lastSegmentOf ([] : Bytes).length (Server.sampleServer 4).payloadSize) =
        2 ^ 62 - 1 := by
      rw [uint64_lastSegmentOf_eq]
      decide
    exact ⟨_, after, answered, by rw [number]; rfl⟩
  · rw [lastSegmentLaw_iff idle (by decide) (by decide) asks]
    decide
  · have ends : ((serving .reference (Server.sampleServer 4) Client.sampleClient [] true).run
        (Client.sampleClient.run .reference true 0 .initial)
        [.answer (Client.sampleClient.request .reference 0 5) { stack := [], served := [] } emptyFiles 0 0 0]).map
          (fun state => (state.status, state.currentPacket)) = some (.running, 3) := rfl
    obtain ⟨state, ran, same⟩ := Option.map_eq_some_iff.mp ends
    obtain ⟨running, packets⟩ := Prod.mk.inj same
    refine ⟨state, System.Reachable.run (.start ⟨0, rfl⟩) ran, running, fun bounded => ?_⟩
    have few := bounded.packets
    rw [packets] at few
    exact absurd few (by decide)

/-! ## Whether there is a final block -/

/-- The branch of `process` that leaves the reply without content and final block. -/
theorem process_unopened (request : Request) (idle : worker.file.isOpen = false)
    (selected : ∃ selector, request.name[server.namePrefix.length]? = some selector ∧
      ndn.componentToUri selector = ascii "download")
    (refused : fileSystem (server.filePath ndn request.name) = none) :
    ∃ after, server.process ndn fileSystem request worker = .ok (
      { name := request.name, freshnessPeriod := server.freshness, content := [], finalBlock := none }, after) := by
  obtain ⟨selector, here, chosen⟩ := selected
  have unopened : (worker.file.openAtEnd fileSystem (server.filePath ndn request.name)).isOpen = false := by
    rw [IfStream.openAtEnd_isOpen idle, refused]
    rfl
  simp only [Server.process, Server.answer, Server.component, here, chosen, if_true, Server.download, unopened,
    Bool.false_eq_true,
    if_false, bind, Except.bind, pure, Except.pure, Except.ok.injEq, Prod.mk.injEq, true_and, exists_eq']

/-- Whatever was opened, a file or a directory of any length, the number fits a segment component. -/
theorem readSegment_finalBlock {name : Name} {next : Data} {after : Worker}
    (answered : server.readSegment ndn name data worker = .ok (next, after)) :
    (next.finalBlock.bind ndn.toSegment).isSome := by
  simp only [Server.readSegment, bind, pure, Except.pure, Outcome.bind_eq_ok, Except.ok.injEq] at answered
  obtain ⟨number, _, _, _, segment, _, filled⟩ := answered
  have numbered : uint64 number < 2 ^ 64 := by
    rw [uint64]
    omega
  have carried : next.finalBlock = some (ndn.fromSegment (uint64 number)) :=
    (congrArg (fun pair => pair.1.finalBlock) filled).symm
  rw [carried, Option.bind_some, ndn.toSegment_fromSegment _ numbered]
  rfl

theorem process_opened (idle : worker.file.isOpen = false)
    (selected : ∃ selector, request.name[server.namePrefix.length]? = some selector ∧
      ndn.componentToUri selector = ascii "download")
    (opened : (fileSystem (server.filePath ndn request.name)).isSome) {after : Worker}
    (answered : server.process ndn fileSystem request worker = .ok (data, after)) :
    (data.finalBlock.bind ndn.toSegment).isSome := by
  obtain ⟨selector, here, chosen⟩ := selected
  have opened : (worker.file.openAtEnd fileSystem (server.filePath ndn request.name)).isOpen := by
    rw [IfStream.openAtEnd_isOpen idle, opened]
  simp only [Server.process, Server.answer, Server.component, here, bind, pure, Except.pure, Except.bind, chosen,
    if_true] at answered
  obtain ⟨⟨found, read⟩, first, rest⟩ := Outcome.bind_eq_ok.mp answered
  simp only [Except.ok.injEq, Prod.mk.injEq] at rest
  obtain ⟨rfl, _⟩ := rest
  simp only [Server.download, opened, if_true, bind, pure, Except.pure, Outcome.bind_eq_ok, Except.ok.injEq,
    Prod.mk.injEq] at first
  obtain ⟨⟨next, _⟩, read, rfl, _⟩ := first
  exact readSegment_finalBlock read

/-- `onDataFile` finds a final block that is a segment number, in a client that is running. -/
def Accepted (ndn : NdnCxx) (data : Data) : Prop :=
  (data.finalBlock.bind ndn.toSegment).isSome ∧
    ∀ (segment : Nat) (state : Client.State), state.status = .running →
      (Client.onDataFile ndn segment data state).status ≠ .faulted

theorem accepted_iff : Accepted ndn data ↔ (data.finalBlock.bind ndn.toSegment).isSome := by
  refine and_iff_left_of_imp fun reported segment state running => ?_
  obtain ⟨last, reported⟩ := Option.isSome_iff_exists.mp reported
  rw [Client.onDataFile_eq reported]
  simp only
  split
  · simp
  · rw [Client.expressFollowing]
    split <;> simp [running, Client.State.express]

/-- Every reply to an Interest of the client is one it can take in exactly if
the server could open the path. -/
theorem replies_accepted_iff {history : Server.History} (reached : history.worker ndn server = .ok worker)
    (same : server.namePrefix = client.namePrefix) (index : Nat) (fileSystem : FileSystem)
    (queueTime processingTime : Int) :
    (∀ data after, server.process ndn fileSystem
        { name := client.segmentName ndn index, queueTime, processingTime } worker = .ok (data, after) →
        Accepted ndn data) ↔
      (fileSystem (servedPath ndn client)).isSome := by
  have idle := Server.History.worker_idle reached
  have path := @filePath_segmentName ndn server client same index
  have selected : ∃ selector, (client.segmentName ndn index)[server.namePrefix.length]? = some selector ∧
      ndn.componentToUri selector = ascii "download" :=
    ⟨.generic (ascii "download"), by simp [segmentName_eq, same], ndn.componentToUri_plain _ plain_download⟩
  constructor
  · intro held
    by_contra refused
    have refused : fileSystem (server.filePath ndn (client.segmentName ndn index)) = none := by
      rw [path]
      simpa using refused
    obtain ⟨after, answered⟩ :=
      process_unopened { name := client.segmentName ndn index, queueTime, processingTime } idle selected refused
    exact absurd (held _ _ answered).1 (by simp)
  · intro opened data after answered
    exact accepted_iff.mpr (process_opened idle selected (by rwa [path]) answered)

theorem replies_accepted_sample :
    ∃ data after, (Server.sampleServer 4).process .reference Server.sampleFiles
        { name := Client.sampleClient.segmentName .reference 0, queueTime := 0, processingTime := 0 } (.start []) =
          .ok (data, after) ∧ Accepted .reference data := by
  have fresh : ({ stack := [], served := [] } : Server.History).worker .reference (Server.sampleServer 4) =
      .ok (.start []) := rfl
  have same : (Server.sampleServer 4).namePrefix = Client.sampleClient.namePrefix := rfl
  have accepted := (replies_accepted_iff fresh same 0 Server.sampleFiles 0 0).mpr rfl
  exact ⟨_, _, rfl, accepted _ _ rfl⟩

def noFiles : FileSystem := fun _ => none

/-- The served file is not there: the reply has no final block, and the client dereferences it. -/
theorem absent_file_faults :
    ∃ data after, (Server.sampleServer 4).process .reference noFiles
        { name := Client.sampleClient.segmentName .reference 0, queueTime := 0, processingTime := 0 } (.start []) =
          .ok (data, after) ∧ data.finalBlock = none ∧ ¬Accepted .reference data ∧
      (Client.onDataFile .reference 0 data (Client.sampleClient.run .reference true 0 .initial)).status = .faulted := by
  refine ⟨_, _, rfl, rfl, fun accepted => ?_, rfl⟩
  exact absurd accepted.1 (by simp)

end Ndnperf.Cxx.Download

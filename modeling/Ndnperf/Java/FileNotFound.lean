import Ndnperf.Java.ClientEnd
import Ndnperf.Java.Completion
import Ndnperf.Java.Segments

namespace Ndnperf.Java.Download

open Ndn Library Library.Word Library.Transition Library.Segmentation

variable {jndn : Jndn} {server : Server} {client : Client} {target : Client.Target} {max : Int} {inode : Nat}
  {content : Bytes} {fileSystem : FileSystem} {pendingFiles : PendingFiles} {before after : Client.State}
  {event : Client.Event} {events : List Client.Event}

/-! ## The client until the count arrives -/

/-- A count of no segments has ended the loops: nothing is on its way any more. -/
structure Refused (state : Client.State) : Prop where
  face : state.face = []
  main : state.main = .loop ∨ state.main = .events ∨ state.main = .ended

theorem refused_step (refused : Refused before) (moved : client.step jndn before event = some after) :
    Refused after := by
  have empty := refused.face
  cases event with
  | data name content throwsAt =>
      obtain ⟨_, _, member, _⟩ := Client.step_data.mp moved
      simp [empty] at member
  | timeout name throwsAt =>
      obtain ⟨_, _, member, _⟩ := Client.step_timeout.mp moved
      simp [empty] at member
  | main throwsAt =>
      obtain ⟨_, moved⟩ := Client.step_main.mp moved
      rcases refused.main with here | here | here
      · simp only [Client.mainStep, here, Option.some.injEq] at moved
        subst moved
        refine ⟨empty, ?_⟩
        by_cases on : before.cont = true
        · simp only [on, if_true, true_or, or_true]
        · exact .inr (.inr (if_neg on))
      · simp only [Client.mainStep, here, Option.some.injEq] at moved
        subst moved
        exact ⟨empty, .inl rfl⟩
      · simp only [Client.mainStep, here] at moved
        cases moved
  | fileManager =>
      obtain ⟨fileManager, pendingFile, filePass, cont, written, same⟩ :=
        Client.fileManagerStep_frame (Client.step_fileManager.mp moved).2
      subst same
      exact ⟨empty, refused.main⟩

theorem refuses_count (downloads : Client.Downloads jndn client target)
    (waiting : Client.Waiting jndn client target before) (here : before.main = .events) (none : max ≤ 0)
    (parsed : parseLong (jndn.blobText content) = some max) :
    Client.Refuses jndn (before.settle target.name) target.name content :=
  ⟨(waiting.sent here).2, rfl, congrArg some downloads.selected, max, none, parsed⟩

/-- Without segments, a client waits or has been refused the file. -/
theorem waiting_or_refused (downloads : Client.Downloads jndn client target) (none : max ≤ 0)
    (state : Client.Waiting jndn client target before ∨ Refused before)
    (moved : (client.download jndn target max).step before event = some after) :
    Client.Waiting jndn client target after ∨ Refused after := by
  obtain ⟨cooperative, moved⟩ := System.guarded_step.mp moved
  change client.step jndn before event = some after at moved
  rcases state with waiting | refused
  · cases event with
    | data name content throwsAt =>
        obtain ⟨rfl, counted⟩ := cooperative
        obtain ⟨_, here, member, rfl⟩ := Client.step_data.mp moved
        obtain ⟨sent, _⟩ := waiting.sent here
        obtain rfl : name = target.name := by simpa [sent] using member
        obtain ⟨retryTable, max, same⟩ :=
          @Client.onData_refuses jndn client _ _ _ Option.none (refuses_count downloads waiting here none (counted rfl))
        rw [same]
        exact .inr ⟨by simp [Client.State.settle, sent], .inr (.inl here)⟩
    | timeout name throwsAt =>
        obtain ⟨rfl, left⟩ := cooperative
        obtain ⟨_, here, member, rfl⟩ := Client.step_timeout.mp moved
        exact .inl (waiting.timeout here member left)
    | main throwsAt =>
        obtain rfl := cooperative
        exact .inl (waiting.mainStep (Client.step_main.mp moved).2)
    | fileManager => exact .inl (waiting.fileManagerStep (Client.step_fileManager.mp moved).2)
  · exact .inr (refused_step refused moved)

/-- The count is handled by a client that waits for it. -/
theorem waiting_of_count (downloads : Client.Downloads jndn client target) (opening : 1 ≤ client.window)
    (reached : (client.download jndn target max).Reachable before) (asked : target.name ∈ before.face) :
    Client.Waiting jndn client target before := by
  by_cases none : max ≤ 0
  · have invariant : (client.download jndn target max).Inductive fun state =>
        Client.Waiting jndn client target state ∨ Refused state :=
      ⟨fun same => .inl (same ▸ Client.waiting_initial downloads),
        fun held moved => waiting_or_refused downloads none held moved⟩
    rcases invariant.reachable reached with waiting | refused
    · exact waiting
    · simp [refused.face] at asked
  · obtain ⟨image, _, ⟨waiting, _⟩ | ⟨arrived, file, busy, live, _⟩⟩ :=
      (Client.download_simulates downloads opening (by omega)).reachable reached
    · exact waiting
    · obtain ⟨index, _, _, same⟩ := live.face.mem asked
      exact absurd (congrArg List.length same) (by simp [Client.Target.segmentName, Client.Target.name])

/-! ## What the count says -/

/-- What the path names, if anything, has a length that is a `long`. -/
def FileOrNothing (fileSystem : FileSystem) (path : Text) : Prop :=
  ∀ length ∈ fileSystem.size path, 0 ≤ length ∧ length < 2 ^ 63

/-- The number that the count reply carries for a path. -/
def reported (server : Server) (fileSystem : FileSystem) (path : Text) : Int :=
  ((fileSystem.size path).map server.fragments).getD 0

theorem size_eq_none {path : Text} : fileSystem.size path = none ↔ fileSystem.lookup path = none := by
  rw [FileSystem.size, Option.map_eq_none_iff]

theorem reply_count (server : Server) (fileSystem : FileSystem) (pendingFiles : PendingFiles) (target : Client.Target) :
    Server.reply jndn server fileSystem pendingFiles target.name =
      some (jndn.blob (decimal (reported server fileSystem (jndn.toEscapedString target.file)))) := by
  simp only [Server.reply, Server.doDownload, Client.Target.name, Option.bind_some,
    server.downloadSigner.content, reported]
  cases fileSystem.size (jndn.toEscapedString target.file) <;> rfl

theorem reported_parsed (positive : 1 ≤ server.maxChunkSize) (small : server.maxChunkSize ≤ 8192)
    (state : FileOrNothing fileSystem (jndn.toEscapedString target.file)) :
    parseLong (jndn.blobText (jndn.blob (decimal (reported server fileSystem (jndn.toEscapedString target.file))))) =
      some (reported server fileSystem (jndn.toEscapedString target.file)) := by
  rw [jndn.blobText_blob _ (decimal_ascii _), reported]
  cases found : fileSystem.size (jndn.toEscapedString target.file) with
  | none =>
      rw [Option.map_none, Option.getD_none]
      exact parseLong_decimal (by omega) (by omega)
  | some length =>
      obtain ⟨lower, upper⟩ := state length found
      obtain ⟨size, rfl⟩ := Int.eq_ofNat_of_zero_le lower
      rw [Option.map_some, Option.getD_some]
      rcases fragments_cases positive small (show size < 2 ^ 63 by omega) with ⟨_, below⟩ | ⟨above, below⟩ <;>
        exact parseLong_decimal (by omega) (by omega)

/-! ## The message and the download -/

/-- After the count, the client has ended with the message exactly if nothing is
there. Otherwise it has opened the local file for as many segments as the
length takes, and completing them stays within reach of it and the server. -/
structure Tells (jndn : Jndn) (server : Server) (client : Client) (target : Client.Target) (max : Int)
    (fileSystem : FileSystem) (pendingFiles : PendingFiles) (after : Client.State) : Prop where
  message : after.cont = false ↔ fileSystem.lookup (jndn.toEscapedString target.file) = none
  downloads : ∀ length ∈ fileSystem.size (jndn.toEscapedString target.file),
    after.pendingFile = some (.new (client.localFile (jndn.toEscapedString target.file))
      (segmentCount server.maxChunkSize.toNat length.toNat : Nat)) ∧
    ∀ events state, (client.download jndn target max).run after events = some state →
      (client.download jndn target max).CanReach
        (Client.Answering (Server.reply jndn server fileSystem pendingFiles))
        (Client.Completed (segmentCount server.maxChunkSize.toNat length.toNat)) state

/-- The path names nothing; or what it names has bytes and can be read, or has
been opened before, and its length and a chunk more fit a `long`. -/
def Told (server : Server) (fileSystem : FileSystem) (pendingFiles : PendingFiles) (path : Text) : Prop :=
  fileSystem.lookup path = none ∨
    (∃ length ∈ fileSystem.size path, 1 ≤ length ∧ length + server.maxChunkSize ≤ 2 ^ 63) ∧
      ((∃ inode, fileSystem.lookup path = some (.readable inode)) ∨ (pendingFiles path).isSome)

theorem fragments_pos_iff (positive : 1 ≤ server.maxChunkSize) (small : server.maxChunkSize ≤ 8192) {length : Nat}
    (size : length < 2 ^ 63) :
    1 ≤ server.fragments length ↔ 1 ≤ length ∧ length + server.maxChunkSize ≤ 2 ^ 63 := by
  by_cases fits : length + server.maxChunkSize ≤ 2 ^ 63
  · rw [(fragments_of_fits positive fits).1]
    rcases Nat.eq_zero_or_pos length with empty | nonempty
    · have none : segmentCount server.maxChunkSize.toNat length = 0 := by
        rw [segmentCount, empty]
        exact Nat.div_eq_of_lt (by omega)
      omega
    · rw [segmentCount_eq_lastIndex (by omega) nonempty]
      omega
  · have none := (fragments_of_overflow small size (by omega)).2
    omega

/-- A segment request finds a channel, or opens one, for what can be read or has been opened before. -/
theorem openChannel_isSome_iff {path : Text} :
    (Server.openChannel fileSystem path pendingFiles path).isSome ↔
      (∃ inode, fileSystem.lookup path = some (.readable inode)) ∨ (pendingFiles path).isSome := by
  unfold Server.openChannel
  cases known : pendingFiles path with
  | some inode => simp [known]
  | none => rcases fileSystem.lookup path with _ | ⟨inode⟩ | length <;> simp [known]

/-- Without a channel the server puts no segment, and otherwise each one whose offset fits a `long`. -/
theorem reply_isSome_iff (positive : 1 ≤ server.maxChunkSize) {index : Nat}
    (bound : index * server.maxChunkSize.toNat < 2 ^ 63) :
    (Server.reply jndn server fileSystem pendingFiles (target.segmentName jndn index)).isSome ↔
      (Server.openChannel fileSystem (jndn.toEscapedString target.file) pendingFiles
        (jndn.toEscapedString target.file)).isSome := by
  have scaled : index ≤ index * server.maxChunkSize.toNat := Nat.le_mul_of_pos_right _ (by omega)
  have number := jndn.toSegment_fromSegment index (by omega) (by omega)
  simp only [Server.reply, Server.doDownload, Client.Target.segmentName, Client.Target.name, List.cons_append,
    List.nil_append, number, Option.getD_some]
  cases Server.openChannel fileSystem (jndn.toEscapedString target.file) pendingFiles
      (jndn.toEscapedString target.file) with
  | none => simp
  | some inode => simp [readChannel_offset positive bound, server.downloadSigner.content]

theorem count_opens (downloads : Client.Downloads jndn client target)
    (waiting : Client.Waiting jndn client target before) (here : before.main = .events) (positive : 1 ≤ max)
    {bytes : Bytes} (counted : parseLong (jndn.blobText bytes) = some max) :
    (client.onData jndn target.name bytes none (before.settle target.name)).cont = true ∧
      (client.onData jndn target.name bytes none (before.settle target.name)).pendingFile =
        some (.new (client.localFile (jndn.toEscapedString target.file)) max) := by
  have known : jndn.toUri target.name ∈ (before.settle target.name).pendingInterests := (waiting.sent here).2
  rw [Client.onData_count downloads positive known counted, Client.expressSegments_eq]
  exact ⟨waiting.on, rfl⟩

/-! ## Without replies -/

/-- A download that has received nothing. -/
def Fruitless (jndn : Jndn) (client : Client) (target : Client.Target) (max : Int) (state : Client.State) : Prop :=
  Client.Progressing jndn client target max state ∧ state.received = []

theorem fruitless_step (downloads : Client.Downloads jndn client target) (opening : 1 ≤ client.window)
    (positive : 1 ≤ max) {replies : Name → Option Bytes}
    (silent : ∀ index : Nat, (index : Int) < max → replies (target.segmentName jndn index) = none)
    (fruitless : Fruitless jndn client target max before) (answering : Client.Answering replies event)
    (moved : (client.download jndn target max).step before event = some after) :
    Fruitless jndn client target max after := by
  obtain ⟨progressing, nothing⟩ := fruitless
  refine ⟨progressing.step downloads opening positive moved, ?_⟩
  obtain ⟨image, arrived, file, busy, reached, live, _⟩ := progressing
  obtain ⟨_, stepped⟩ := System.guarded_step.mp moved
  change client.step jndn before event = some after at stepped
  rcases answering with rfl | rfl | ⟨name, content, replied, rfl⟩
  · obtain ⟨_, _, _, _, _, _, rfl⟩ | ⟨name, _, rfl⟩ | ⟨_, _, _, _, _, rfl⟩ :=
      @Client.mainStep_cases jndn client before after none (Client.step_main.mp stepped).2
    · exact nothing
    · obtain ⟨_, _, _, same⟩ := @Client.requestNext_frame jndn name none before
      rw [same]
      exact nothing
    · exact nothing
  · obtain ⟨_, _, _, _, _, rfl⟩ := Client.fileManagerStep_frame (Client.step_fileManager.mp stepped).2
    exact nothing
  · obtain ⟨_, here, member, _⟩ := Client.step_data.mp stepped
    obtain ⟨index, inside, rfl, _⟩ := live.data downloads here member content
    have unanswered := silent index (live.small (Fetch.State.mem_outstanding.mp inside).1)
    rw [unanswered] at replied
    cases replied

/-- A server that puts no segment never brings a download to its end. -/
theorem Fruitless.endless (downloads : Client.Downloads jndn client target) (opening : 1 ≤ client.window)
    (positive : 1 ≤ max) {replies : Name → Option Bytes}
    (silent : ∀ index : Nat, (index : Int) < max → replies (target.segmentName jndn index) = none) {count : Nat}
    (some : 1 ≤ count) (fruitless : Fruitless jndn client target max before) :
    ¬(client.download jndn target max).CanReach (Client.Answering replies) (Client.Completed count) before := by
  intro reaches
  obtain ⟨labels, after, answering, ran, completed⟩ := reaches
  obtain ⟨⟨image, arrived, file, busy, _, live, _⟩, nothing⟩ : Fruitless jndn client target max after :=
    @System.run_records_of _ _ (client.download jndn target max) (Client.Answering replies)
      (fun _ => Fruitless jndn client target max)
      (fun fruitless answering moved => fruitless_step downloads opening positive silent fruitless answering moved)
      [] labels before after fruitless answering ran
  obtain ⟨opened, known, _, position⟩ := completed.closed
  obtain rfl : opened = file := Option.some.inj (known.symm.trans live.drains.known)
  have first := congrArg List.head? live.drains.written
  obtain ⟨earlier, rfl⟩ := Nat.exists_eq_add_of_le' some
  rw [position, List.range_succ_eq_map] at first
  simp only [List.map_cons, List.head?_cons, List.head?_map, Option.map_eq_some_iff] at first
  obtain ⟨content, _, here⟩ := first
  have received := (live.received _ _).mpr ⟨0, rfl, here.symm⟩
  simp [nothing] at received

/-- Whenever the count arrives, the client tells what is not there from what it
can download exactly if nothing is there, or something that has bytes, can be
read and has a length that with a chunk more fits a `long`. -/
theorem tells_iff (positive : 1 ≤ server.maxChunkSize) (small : server.maxChunkSize ≤ 8192)
    (downloads : Client.Downloads jndn client target) (opening : 1 ≤ client.window)
    (state : FileOrNothing fileSystem (jndn.toEscapedString target.file)) {bytes : Bytes}
    (replied : Server.reply jndn server fileSystem pendingFiles target.name = some bytes)
    (counted : parseLong (jndn.blobText bytes) = some max)
    (ran : (client.download jndn target max).run (.initial jndn client) events = some before)
    (moved : (client.download jndn target max).step before (.data target.name bytes none) = some after) :
    Tells jndn server client target max fileSystem pendingFiles after ↔
      Told server fileSystem pendingFiles (jndn.toEscapedString target.file) := by
  have same : max = reported server fileSystem (jndn.toEscapedString target.file) := by
    rw [reply_count, Option.some.injEq] at replied
    rw [← replied, reported_parsed positive small state] at counted
    exact (Option.some.inj counted).symm
  have reached : (client.download jndn target max).Reachable before := .run (.start rfl) ran
  obtain ⟨_, handled⟩ := System.guarded_step.mp moved
  obtain ⟨_, here, asked, rfl⟩ := Client.step_data.mp handled
  have waiting := waiting_of_count downloads opening reached asked
  have refused : max ≤ 0 → (client.onData jndn target.name bytes none (before.settle target.name)).cont = false := by
    intro none
    obtain ⟨retryTable, max, same⟩ :=
      @Client.onData_refuses jndn client _ _ _ Option.none (refuses_count downloads waiting here none counted)
    rw [same]
  cases found : fileSystem.size (jndn.toEscapedString target.file) with
  | none =>
      have missing := size_eq_none.mp found
      refine iff_of_true ⟨iff_of_true (refused ?_) missing, by simp [found]⟩ (.inl missing)
      simp [same, reported, found]
  | some length =>
      have present : fileSystem.lookup (jndn.toEscapedString target.file) ≠ none := fun missing => by
        simp [size_eq_none.mpr missing] at found
      obtain ⟨lower, upper⟩ := state length found
      obtain ⟨size, rfl⟩ := Int.eq_ofNat_of_zero_le lower
      have total : max = server.fragments size := by
        simp only [same, reported, found, Option.map_some, Option.getD_some]
      by_cases counts : 1 ≤ max
      · have fits := (fragments_pos_iff positive small (by omega)).mp (total ▸ counts)
        have count : max = segmentCount server.maxChunkSize.toNat size := by
          rw [total, (fragments_of_fits positive fits.2).1]
        have begun := waiting.progressing downloads here opening counts counted
        obtain ⟨on, opened⟩ := count_opens downloads waiting here counts counted
        have bound : ∀ index : Nat, (index : Int) < max → index * server.maxChunkSize.toNat < 2 ^ 63 := by
          intro index inside
          have below := mul_lt_of_lt_segmentCount (show 0 < server.maxChunkSize.toNat by omega)
            (show index < segmentCount server.maxChunkSize.toNat size by omega)
          omega
        have told : Told server fileSystem pendingFiles (jndn.toEscapedString target.file) ↔
            (Server.openChannel fileSystem (jndn.toEscapedString target.file) pendingFiles
              (jndn.toEscapedString target.file)).isSome := by
          rw [openChannel_isSome_iff, Told, found]
          exact ⟨fun either => (either.resolve_left present).2,
            fun reads => .inr ⟨⟨size, rfl, by omega, by omega⟩, reads⟩⟩
        rw [told]
        constructor
        · intro tells
          by_contra closed
          have silent : ∀ index : Nat, (index : Int) < max →
              Server.reply jndn server fileSystem pendingFiles (target.segmentName jndn index) = none := by
            intro index inside
            have unanswered := (not_congr (reply_isSome_iff positive (bound index inside))).mpr closed
            exact Option.not_isSome_iff_eq_none.mp unanswered
          have nothing : (client.onData jndn target.name bytes none (before.settle target.name)).received = [] := by
            have known : jndn.toUri target.name ∈ (before.settle target.name).pendingInterests := (waiting.sent here).2
            rw [Client.onData_count downloads counts known counted, Client.expressSegments_eq]
            exact waiting.received
          have fruitless : Fruitless jndn client target max
              (client.onData jndn target.name bytes none (before.settle target.name)) := ⟨begun, nothing⟩
          obtain ⟨_, completes⟩ := tells.downloads size found
          rw [Int.toNat_natCast] at completes
          exact fruitless.endless downloads opening counts silent (by omega) (completes [] _ rfl)
        · intro opens
          refine ⟨iff_of_false (by simp [on]) present, fun length named => ?_⟩
          obtain rfl := Option.some.inj (found.symm.trans named)
          rw [Int.toNat_natCast]
          refine ⟨count ▸ opened, fun events state ran => ?_⟩
          have served : ∀ index : Nat, (index : Int) < max →
              (Server.reply jndn server fileSystem pendingFiles (target.segmentName jndn index)).isSome :=
            fun index inside => (reply_isSome_iff positive (bound index inside)).mpr opens
          have completes := (begun.run downloads opening counts ran).completes downloads opening counts served
          rwa [count, Int.toNat_natCast, ← count] at completes
      · refine iff_of_false (fun tells => ?_) fun told => ?_
        · exact present (tells.message.mp (refused (by omega)))
        · obtain ⟨⟨other, named, some, fits⟩, _⟩ := told.resolve_left present
          obtain rfl := Option.some.inj (found.symm.trans named)
          exact counts (total ▸ (fragments_pos_iff positive small (by omega)).mpr ⟨by omega, fits⟩)

/-! ## The exchange of the count -/

/-- A run of a client that has been started, in which the count that the server replies arrives. -/
def Hears (jndn : Jndn) (server : Server) (client : Client) (target : Client.Target) (fileSystem : FileSystem)
    (pendingFiles : PendingFiles) (max : Int) (after : Client.State) : Prop :=
  ∃ started bytes events before, client.new jndn = some started ∧
    Server.reply jndn server fileSystem pendingFiles target.name = some bytes ∧
    parseLong (jndn.blobText bytes) = some max ∧
    (client.download jndn target max).run started events = some before ∧
    (client.download jndn target max).step before (.data target.name bytes none) = some after

/-- The client starts, and whenever the count arrives it is told apart what is there and what is not. -/
structure Distinguishes (jndn : Jndn) (server : Server) (client : Client) (target : Client.Target)
    (fileSystem : FileSystem) (pendingFiles : PendingFiles) : Prop where
  starts : (client.new jndn).isSome
  tells : ∀ max after, Hears jndn server client target fileSystem pendingFiles max after →
    Tells jndn server client target max fileSystem pendingFiles after

/-- The three steps in which the main thread sends its only Interest and enters `processEvents`. -/
theorem count_arrives (downloads : Client.Downloads jndn client target) {bytes : Bytes}
    (counted : parseLong (jndn.blobText bytes) = some max) :
    ∃ before after, (client.download jndn target max).run (.initial jndn client) (List.replicate 3 (.main none)) =
        some before ∧
      (client.download jndn target max).step before (.data target.name bytes none) = some after := by
  let sent : Client.State := { Client.State.initial jndn client with
    iQueue := []
    face := [target.name]
    pendingInterests := {jndn.toUri target.name} }
  have polls : client.step jndn (.initial jndn client) (.main none) = some sent := by
    refine Client.step_main.mpr ⟨rfl, ?_⟩
    simp [Client.mainStep, Client.State.initial, Client.State.express, downloads.asked, sent]
  have empty : client.step jndn sent (.main none) = some { sent with main := .loop } := rfl
  have enters : client.step jndn { sent with main := .loop } (.main none) = some { sent with main := .events } := rfl
  have ran : (client.download jndn target max).run (.initial jndn client) (List.replicate 3 (.main none)) =
      some { sent with main := .events } :=
    System.run_cons.mpr ⟨sent, System.guarded_step.mpr ⟨rfl, polls⟩,
      System.run_cons.mpr ⟨_, System.guarded_step.mpr ⟨rfl, empty⟩,
        System.run_cons.mpr ⟨_, System.guarded_step.mpr ⟨rfl, enters⟩, rfl⟩⟩⟩
  have handled : client.step jndn { sent with main := .events } (.data target.name bytes none) =
      some (client.onData jndn target.name bytes none ({ sent with main := .events }.settle target.name)) :=
    Client.step_data.mpr ⟨rfl, rfl, List.mem_singleton_self _, rfl⟩
  exact ⟨_, _, ran, System.guarded_step.mpr ⟨⟨rfl, fun _ => counted⟩, handled⟩⟩

/-- Whatever the server was started with and whatever files it has opened, a
client tells what is not there from what it can download exactly if its window
fits the constructor and nothing is there, or something that has bytes, can be
read and has a length that with a chunk more fits a `long`. -/
theorem not_found_iff {data8192 : Text} (full : data8192.length = 8192) {chunk freshness : Int}
    {benchmarkSigner downloadSigner : Signer}
    (started : server = .new jndn data8192 chunk freshness benchmarkSigner downloadSigner)
    (downloads : Client.Downloads jndn client target) (opening : 1 ≤ client.window) (size : client.window < 2 ^ 31)
    (state : FileOrNothing fileSystem (jndn.toEscapedString target.file)) :
    Distinguishes jndn server client target fileSystem pendingFiles ↔
      client.window < 2 ^ 30 ∧ Told server fileSystem pendingFiles (jndn.toEscapedString target.file) := by
  obtain ⟨positive, small⟩ : 1 ≤ server.maxChunkSize ∧ server.maxChunkSize ≤ 8192 :=
    started ▸ Server.maxChunkSize_bounds full chunk freshness benchmarkSigner downloadSigner
  constructor
  · intro distinguishes
    obtain ⟨made, constructed⟩ := Option.isSome_iff_exists.mp distinguishes.starts
    obtain ⟨fits, rfl⟩ := (Client.new_eq_some opening size).mp constructed
    have counted := reported_parsed positive small state
    obtain ⟨before, after, ran, moved⟩ := count_arrives downloads counted
    have replied := @reply_count jndn server fileSystem pendingFiles target
    refine ⟨fits, (tells_iff positive small downloads opening state replied counted ran moved).mp ?_⟩
    exact distinguishes.tells _ _ ⟨_, _, _, before, constructed, replied, counted, ran, moved⟩
  · intro both
    obtain ⟨fits, told⟩ := both
    have constructed : client.new jndn = some (.initial jndn client) :=
      (Client.new_eq_some opening size).mpr ⟨fits, rfl⟩
    refine ⟨by rw [constructed]; rfl, fun max after heard => ?_⟩
    obtain ⟨made, bytes, events, before, new, replied, counted, ran, moved⟩ := heard
    obtain ⟨_, rfl⟩ := (Client.new_eq_some opening size).mp new
    exact (tells_iff positive small downloads opening state replied counted ran moved).mpr told

/-! A file of three bytes, an empty one, and one that cannot be read. -/

def sampleNode (node : Node) (content : Bytes) : FileSystem where
  lookup path := if path = "a".toList then some node else none
  content _ := content

theorem sampleNode_lookup (node : Node) (content : Bytes) :
    (sampleNode node content).lookup (Jndn.reference.toEscapedString Client.sampleTarget.file) = some node := by
  have same : Jndn.reference.toEscapedString Client.sampleTarget.file = "a".toList := by decide
  simp only [sampleNode, same, if_true]

def countRun (max : Int) (bytes : Bytes) : Option (Client.State × Client.State) :=
  let download := Client.download .reference (Client.sampleClient none) Client.sampleTarget max
  (download.run (.initial .reference (Client.sampleClient none)) (List.replicate 3 (.main none))).bind fun before =>
    (download.step before (.data Client.sampleTarget.name bytes none)).map fun after => (before, after)

theorem countRun_eq {bytes : Bytes} (counted : countRun max bytes = some (before, after)) :
    (Client.download .reference (Client.sampleClient none) Client.sampleTarget max).run
        (.initial .reference (Client.sampleClient none)) (List.replicate 3 (.main none)) = some before ∧
      (Client.download .reference (Client.sampleClient none) Client.sampleTarget max).step before
        (.data Client.sampleTarget.name bytes none) = some after := by
  simp only [countRun, Option.bind_eq_some_iff, Option.map_eq_some_iff, Prod.mk.injEq] at counted
  obtain ⟨state, ran, next, moved, rfl, rfl⟩ := counted
  exact ⟨ran, moved⟩

theorem hears_sample {bytes : Bytes} (replied : Server.reply .reference server fileSystem pendingFiles
      Client.sampleTarget.name = some bytes) (parsed : parseLong (Jndn.reference.blobText bytes) = some max)
    (counted : countRun max bytes = some (before, after)) :
    Hears .reference server (Client.sampleClient none) Client.sampleTarget fileSystem pendingFiles max after := by
  obtain ⟨ran, moved⟩ := countRun_eq counted
  have constructed : (Client.sampleClient none).new .reference =
      some (.initial .reference (Client.sampleClient none)) :=
    (Client.new_eq_some (by decide) (by decide)).mpr ⟨by decide, rfl⟩
  exact ⟨_, bytes, _, before, constructed, replied, parsed, ran, moved⟩

/-- Three bytes in chunks of two. -/
theorem not_found_sample :
    ∃ after, Hears .reference (Server.sampleChunks 2) (Client.sampleClient none) Client.sampleTarget
        (sampleNode (.readable 0) [65, 66, 67]) (fun _ => none) 2 after ∧
      Tells .reference (Server.sampleChunks 2) (Client.sampleClient none) Client.sampleTarget 2
        (sampleNode (.readable 0) [65, 66, 67]) (fun _ => none) after := by
  have counts : (countRun 2 (ascii "2")).isSome := by decide +kernel
  obtain ⟨⟨before, after⟩, counted⟩ := Option.isSome_iff_exists.mp counts
  have heard : Hears .reference (Server.sampleChunks 2) (Client.sampleClient none) Client.sampleTarget
      (sampleNode (.readable 0) [65, 66, 67]) (fun _ => none) 2 after :=
    hears_sample (by decide +kernel) (by decide +kernel) counted
  have found := sampleNode_lookup (.readable 0) [65, 66, 67]
  have length : (sampleNode (.readable 0) [65, 66, 67]).size
      (Jndn.reference.toEscapedString Client.sampleTarget.file) = some 3 := by
    rw [FileSystem.size, found]
    rfl
  have started : Server.sampleChunks 2 = .new .reference (List.replicate 8192 'a') 2 0 .unsigned .unsigned := rfl
  have chunk : (Server.sampleChunks 2).maxChunkSize = 2 := maxChunkSize_new List.length_replicate (by omega) (by omega)
  have sized : FileOrNothing (sampleNode (.readable 0) [65, 66, 67])
      (Jndn.reference.toEscapedString Client.sampleTarget.file) := by
    intro other named
    obtain rfl := Option.some.inj (length.symm.trans named)
    omega
  have distinguishes : Distinguishes .reference (Server.sampleChunks 2) (Client.sampleClient none) Client.sampleTarget
      (sampleNode (.readable 0) [65, 66, 67]) (fun _ => none) :=
    (not_found_iff List.length_replicate started (Client.downloads_sample none) (by decide) (by decide) sized).mpr
      ⟨by decide, .inr ⟨⟨3, length, by omega, by omega⟩, .inl ⟨0, found⟩⟩⟩
  exact ⟨after, heard, distinguishes.tells 2 after heard⟩

/-- The count of an empty file is taken for a file that is not there. A file
that may not be read is counted, and no segment of it comes. With a window of
2^30 the client does not start. -/
theorem empty_not_found :
    (∃ after, Hears .reference (Server.sampleChunks 1) (Client.sampleClient none) Client.sampleTarget
        (sampleNode (.readable 0) []) (fun _ => none) 0 after ∧ after.cont = false ∧
        ¬Tells .reference (Server.sampleChunks 1) (Client.sampleClient none) Client.sampleTarget 0
          (sampleNode (.readable 0) []) (fun _ => none) after) ∧
      (∃ after, Hears .reference (Server.sampleChunks 1) (Client.sampleClient none) Client.sampleTarget
        (sampleNode (.other 1) []) (fun _ => none) 1 after ∧ after.cont = true ∧
        ¬Tells .reference (Server.sampleChunks 1) (Client.sampleClient none) Client.sampleTarget 1
          (sampleNode (.other 1) []) (fun _ => none) after) ∧
      Client.new .reference { Client.sampleClient none with window := 2 ^ 30 } = none := by
  refine ⟨?_, ?_, rfl⟩
  · have counts : (countRun 0 (ascii "0")).map (fun pair => pair.2.cont) = some false := by decide +kernel
    obtain ⟨⟨before, after⟩, counted, off⟩ := Option.map_eq_some_iff.mp counts
    refine ⟨after, hears_sample (by decide +kernel) (by decide +kernel) counted, off, fun tells => ?_⟩
    have missing := tells.message.mp off
    simp [sampleNode_lookup] at missing
  · have counts : (countRun 1 (ascii "1")).map (fun pair => pair.2.cont) = some true := by decide +kernel
    obtain ⟨⟨before, after⟩, counted, on⟩ := Option.map_eq_some_iff.mp counts
    obtain ⟨positive, small⟩ := Server.sampleChunks_bounds 1
    have found := sampleNode_lookup (.other 1) []
    have length : (sampleNode (.other 1) []).size (Jndn.reference.toEscapedString Client.sampleTarget.file) =
        some 1 := by
      rw [FileSystem.size, found]
      rfl
    have sized : FileOrNothing (sampleNode (.other 1) [])
        (Jndn.reference.toEscapedString Client.sampleTarget.file) := by
      intro other named
      obtain rfl := Option.some.inj (length.symm.trans named)
      omega
    obtain ⟨ran, moved⟩ := countRun_eq counted
    have replied : Server.reply .reference (Server.sampleChunks 1) (sampleNode (.other 1) []) (fun _ => none)
        Client.sampleTarget.name = some (ascii "1") := by decide +kernel
    have parsed : parseLong (Jndn.reference.blobText (ascii "1")) = some 1 := by decide +kernel
    refine ⟨after, hears_sample replied parsed counted, on, fun tells => ?_⟩
    have told := (tells_iff positive small (Client.downloads_sample none)
        (by decide) sized replied parsed ran moved).mp tells
    simp [Told, found] at told

end Ndnperf.Java.Download

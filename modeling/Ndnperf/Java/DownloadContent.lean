import Ndnperf.Java.Download

namespace Ndnperf.Java.Download

open Ndn Library Library.Word Library.Transition Library.Segmentation

variable {jndn : Jndn} {server : Server} {client : Client} {target : Client.Target} {inode : Nat} {content : Bytes}
  {Thread : Type} [DecidableEq Thread] {state before after : State Thread} {name : Name}

/-! ## The runs of both programs -/

/-- A closed local file holds the served one, and behind it what was longer before. -/
def Complete (jndn : Jndn) (client : Client) (target : Client.Target) (content : Bytes) (state : Client.State) : Prop :=
  ∀ file ∈ state.pendingFile, file.channel.isOpen = false →
    file.channel.content = content ++ (target.existing jndn client).drop content.length

theorem complete_of_live {state : Client.State} {image : Fetch.State} {arrived : Nat → Option Bytes}
    {file : PendingFile} {busy : Option Nat} {width : Nat} {max : Int} (positive : 1 ≤ max)
    (covered : content.length ≤ max.toNat * width)
    (live : Client.Live jndn client target max state image arrived file busy)
    (valid : ∀ index bytes, arrived index = some bytes → bytes = segment width index content) :
    Complete jndn client target content state := by
  intro opened here closed
  obtain rfl : file = opened := by simpa [live.drains.known] using here
  obtain ⟨finished, settled⟩ : max ≤ file.position ∧ state.fileManager.inHand = none := by
    rcases live.drains.opened closed with stopping | off
    · exact ⟨live.drains.finished (by rw [stopping]; rfl), by rw [stopping]; rfl⟩
    · obtain ⟨finished, here | here⟩ := live.drains.stopped off <;> exact ⟨finished, by rw [here]; rfl⟩
  have position : file.position = max.toNat := by
    have capped := live.position_le positive
    omega
  have written : state.written = (List.range file.position).map fun index => segment width index content := by
    have listed := live.drains.written
    rw [settled, Option.toList_none, List.append_nil] at listed
    refine List.map_injective_iff.mpr (Option.some_injective _) (listed.trans ?_)
    rw [List.map_map]
    refine List.map_congr_left fun index member => ?_
    obtain ⟨bytes, found⟩ :=
      Option.isSome_iff_exists.mp (live.drains.tracks.delivered index (List.mem_range.mp member))
    rw [found, valid index bytes found]
    rfl
  have whole : state.written.flatten = content := by
    rw [written, ← List.flatMap_def, position]
    exact flatMap_segment_all covered
  rw [live.drains.channel.content, whole]

/-- An aborted client changes nothing any more, and left the file as it was. -/
theorem complete_of_timeout {state : Client.State} (complete : Complete jndn client target content state) :
    Complete jndn client target content (Client.onTimeout jndn name none (state.settle name)) := by
  unfold Client.onTimeout
  simp only
  split <;> exact complete

def Carries (server : Server) (content : Bytes) (index : Nat) (bytes : Bytes) : Prop :=
  bytes = segment server.maxChunkSize.toNat index content

section Counted

omit [DecidableEq Thread]

variable {image : Fetch.State} {event : Client.Event} {next : Client.State}

theorem parseLong_count (meets : Meets jndn server client target content) :
    parseLong (jndn.blobText (jndn.blob (decimal (server.fragments content.length)))) =
      some (server.fragments content.length) := by
  rw [jndn.blobText_blob _ (decimal_ascii _)]
  rcases fragments_cases meets.positive meets.small meets.size with ⟨counted, upper⟩ | ⟨lower, upper⟩ <;>
    exact parseLong_decimal (by omega) (by omega)

theorem delivered_count (meets : Meets jndn server client target content)
    (served : Serving jndn server target inode content state.server) {bytes : Bytes} {throwsAt : Option Client.Failure}
    (delivered : Delivered state.server.sent (.data target.name bytes throwsAt)) :
    parseLong (jndn.blobText bytes) = some (server.fragments content.length) := by
  obtain ⟨data, put, named, rfl⟩ := delivered
  rw [served.counted data put named]
  exact parseLong_count meets

theorem delivered_segment (served : Serving jndn server target inode content state.server)
    (delivered : Delivered state.server.sent event) :
    Client.Delivers jndn target (server.fragments content.length) (Carries server content) event := by
  cases event with
  | data name bytes throwsAt =>
      obtain ⟨data, put, named, rfl⟩ := delivered
      intro index inside asked
      rw [served.cut data put index inside (named.trans asked)]
      rfl
  | timeout name throwsAt => trivial
  | main throwsAt => trivial
  | fileManager => trivial

/-- A download that goes on, or one that was aborted by a timeout. -/
def Proceeds (jndn : Jndn) (server : Server) (client : Client) (target : Client.Target) (content : Bytes)
    (state : Client.State) (image : Fetch.State) : Prop :=
  Client.Related jndn client target (server.fragments content.length) (Carries server content) state image ∨
    state.exited = true ∧ Complete jndn client target content state

theorem Proceeds.complete (meets : Meets jndn server client target content)
    (counted : 1 ≤ server.fragments content.length)
    (proceeds : Proceeds jndn server client target content state.client image) :
    Complete jndn client target content state.client := by
  rcases proceeds with (⟨waiting, _⟩ | ⟨arrived, file, busy, live, valid⟩) | ⟨_, complete⟩
  · intro file here
    simp [waiting.absent] at here
  · have width : 0 < server.maxChunkSize.toNat := by
      have positive := meets.positive
      omega
    have total : server.fragments content.length = segmentCount server.maxChunkSize.toNat content.length := by
      rcases fragments_cases meets.positive meets.small meets.size with ⟨total, _⟩ | ⟨_, none⟩
      · exact total
      · omega
    refine complete_of_live counted ?_ live valid
    rw [total, Int.toNat_natCast]
    exact length_le_segmentCount_mul width
  · exact complete

theorem Proceeds.step (meets : Meets jndn server client target content)
    (counted : 1 ≤ server.fragments content.length) (within : image.answered ⊆ Finset.range image.issued)
    (served : Serving jndn server target inode content state.server)
    (proceeds : Proceeds jndn server client target content state.client image) (sent : Sent event)
    (delivered : Delivered state.server.sent event) (moved : client.step jndn state.client event = some next) :
    Proceeds jndn server client target content next image ∨
      ∃ index after, image.answer (server.fragments content.length).toNat index = some after ∧
        Proceeds jndn server client target content next after := by
  have complete := proceeds.complete meets counted
  rcases proceeds with related | ⟨exited, _⟩
  · by_cases cooperative : Client.Cooperative jndn target (server.fragments content.length) state.client event
    · rcases Client.related_step meets.downloads meets.opening counted within related cooperative
        (delivered_segment served delivered) moved with same | ⟨index, after, answered, further⟩
      · exact .inl (.inl same)
      · exact .inr ⟨index, after, answered, .inl further⟩
    · -- Only a timeout without retries left falls outside of a cooperative run.
      cases event with
      | data name bytes throwsAt =>
          refine (cooperative ⟨sent, ?_⟩).elim
          intro same
          subst same
          exact delivered_count meets served delivered
      | timeout name throwsAt =>
          obtain rfl : throwsAt = none := sent
          have spent : ¬0 < state.client.retries jndn name := fun left => cooperative ⟨rfl, left⟩
          obtain ⟨_, _, _, rfl⟩ := Client.step_timeout.mp moved
          refine .inl (.inr ⟨?_, complete_of_timeout complete⟩)
          rw [Client.onTimeout, if_neg (by exact spent)]
      | main throwsAt => exact (cooperative sent).elim
      | fileManager => exact (cooperative trivial).elim
  · simp [Client.running_of_step moved] at exited

end Counted

/-! ## A count that does not fit -/

/-- The client has asked for the count only, and created no file. -/
structure Unopened (target : Client.Target) (state : Client.State) : Prop where
  absent : state.pendingFile = none
  queued : ∀ name ∈ state.iQueue, name = target.name
  asked : ∀ name ∈ state.face, name = target.name
  idle : ∀ name, state.main ≠ .release name ∧ state.main ≠ .request name

variable {idling next : Client.State}

theorem fileManagerStep_absent (absent : idling.pendingFile = none)
    (moved : Client.fileManagerStep idling = some next) : next.pendingFile = none := by
  cases here : idling.fileManager <;>
    simp only [Client.fileManagerStep, here, Client.State.withFile, absent, Option.some.injEq,
      Option.ite_none_right_eq_some, reduceCtorEq] at moved
  case acquire permits =>
    obtain ⟨_, rfl⟩ := moved
    rfl
  all_goals
    subst moved
    first | rfl | exact absent

/-- A client takes a count of no segments or fewer for a file that was not found. -/
theorem Unopened.refuse (unopened : Unopened target idling) (downloads : Client.Downloads jndn client target)
    {count : Int} (refused : count ≤ 0) {bytes : Bytes} (parsed : parseLong (jndn.blobText bytes) = some count) :
    Unopened target (client.onData jndn target.name bytes none idling) := by
  by_cases known : jndn.toUri target.name ∈ idling.pendingInterests
  · rw [← List.append_nil target.name] at known ⊢
    rw [Client.onData_download downloads known, List.append_nil]
    simp only [Client.Target.name, Client.nextDownloadInterest, parsed, refused, if_true]
    exact { unopened with }
  · rw [Client.onData, if_neg (by exact known)]
    exact { unopened with }

theorem Unopened.settle (unopened : Unopened target idling) (name : Name) : Unopened target (idling.settle name) :=
  { unopened with asked := fun other kept => unopened.asked other (List.mem_of_mem_erase kept) }

theorem Unopened.express (unopened : Unopened target idling) (jndn : Jndn) :
    Unopened target (idling.express jndn target.name) :=
  { unopened with
    asked := fun other kept => by
      rcases List.mem_append.mp kept with earlier | latest
      · exact unopened.asked other earlier
      · exact List.mem_singleton.mp latest }

theorem Unopened.timeout (unopened : Unopened target idling) :
    Unopened target (Client.onTimeout jndn target.name none idling) := by
  unfold Client.onTimeout
  simp only
  split
  · exact { unopened.express jndn with }
  · exact { unopened with }

theorem Unopened.mainStep (unopened : Unopened target idling) (moved : Client.mainStep jndn none idling = some next) :
    Unopened target next := by
  cases here : idling.main with
  | poll =>
      simp only [Client.mainStep, here] at moved
      split at moved
      · exact Option.some.inj moved ▸ { unopened with idle := by simp }
      · rename_i name rest queued
        obtain rfl := unopened.queued name (queued ▸ List.mem_cons_self)
        have polled : Unopened target { idling with iQueue := rest } :=
          { unopened with queued := fun other kept => unopened.queued other (queued ▸ List.mem_cons_of_mem _ kept) }
        simp only [Option.some.injEq] at moved
        subst moved
        exact { polled.express jndn with idle := by simp [Client.State.express] }
  | loop =>
      simp only [Client.mainStep, here, Option.some.injEq] at moved
      subst moved
      exact { unopened with idle := by intro name; split <;> simp }
  | events =>
      simp only [Client.mainStep, here, Option.some.injEq] at moved
      exact moved ▸ { unopened with idle := by simp }
  | release name => exact ((unopened.idle name).1 here).elim
  | request name => exact ((unopened.idle name).2 here).elim
  | ended =>
      simp only [Client.mainStep, here] at moved
      cases moved

omit [DecidableEq Thread] in
theorem Unopened.step {event : Client.Event} (meets : Meets jndn server client target content)
    (refused : server.fragments content.length ≤ 0) (served : Serving jndn server target inode content state.server)
    (unopened : Unopened target state.client) (sent : Sent event) (delivered : Delivered state.server.sent event)
    (moved : client.step jndn state.client event = some next) : Unopened target next := by
  cases event with
  | data name bytes throwsAt =>
      obtain rfl : throwsAt = none := sent
      obtain ⟨_, _, member, rfl⟩ := Client.step_data.mp moved
      obtain rfl := unopened.asked name member
      exact (unopened.settle _).refuse meets.downloads refused (delivered_count meets served delivered)
  | timeout name throwsAt =>
      obtain rfl : throwsAt = none := sent
      obtain ⟨_, _, member, rfl⟩ := Client.step_timeout.mp moved
      obtain rfl := unopened.asked name member
      exact (unopened.settle _).timeout
  | main throwsAt =>
      obtain rfl : throwsAt = none := sent
      exact unopened.mainStep (Client.step_main.mp moved).2
  | fileManager =>
      obtain ⟨_, moved⟩ := Client.step_fileManager.mp moved
      have absent := fileManagerStep_absent unopened.absent moved
      obtain ⟨fileManager, pendingFile, filePass, cont, written, rfl⟩ := Client.fileManagerStep_frame moved
      exact { unopened with absent }

/-! ## The whole download -/

theorem system_simulates (meets : Meets jndn server client target content)
    (counted : 1 ≤ server.fragments content.length) :
    System.Simulation (system jndn server client target inode content : System (State Thread) (Event Thread))
      (Fetch.system (min client.window (server.fragments content.length)).toNat
        (server.fragments content.length).toNat)
      fun state image => Serving jndn server target inode content state.server ∧
        Proceeds jndn server client target content state.client image := by
  constructor
  · intro state same
    subst same
    exact ⟨_, rfl, serving_initial, .inl (.inl ⟨Client.waiting_initial meets.downloads, rfl⟩)⟩
  · intro before event after image earlier held moved
    obtain ⟨served, proceeds⟩ := held
    obtain ⟨undisturbed, moved⟩ := System.guarded_step.mp moved
    cases event with
    | server label =>
        obtain ⟨next, worked, rfl⟩ := Option.map_eq_some_iff.mp moved
        exact .inl ⟨served.step meets undisturbed worked, proceeds⟩
    | client event =>
        simp only [step, Option.ite_none_right_eq_some, Option.map_eq_some_iff] at moved
        obtain ⟨delivered, next, worked, rfl⟩ := moved
        rcases proceeds.step meets counted (Fetch.wellFormed earlier).answered served undisturbed delivered worked with
          same | ⟨index, after, answered, further⟩
        · exact .inl ⟨served, same⟩
        · exact .inr ⟨index, after, answered, served, further⟩

theorem unopened_inductive (meets : Meets jndn server client target content)
    (refused : server.fragments content.length ≤ 0) :
    (system jndn server client target inode content : System (State Thread) (Event Thread)).Inductive fun state =>
      Serving jndn server target inode content state.server ∧ Unopened target state.client := by
  constructor
  · intro state same
    subst same
    exact ⟨serving_initial, rfl, by simp [Client.State.initial, meets.downloads.asked], by simp [Client.State.initial],
      by simp [Client.State.initial]⟩
  · intro before event after held moved
    obtain ⟨served, unopened⟩ := held
    obtain ⟨undisturbed, moved⟩ := System.guarded_step.mp moved
    cases event with
    | server label =>
        obtain ⟨next, worked, rfl⟩ := Option.map_eq_some_iff.mp moved
        exact ⟨served.step meets undisturbed worked, unopened⟩
    | client event =>
        simp only [step, Option.ite_none_right_eq_some, Option.map_eq_some_iff] at moved
        obtain ⟨delivered, next, worked, rfl⟩ := moved
        exact ⟨served, unopened.step meets refused served undisturbed delivered worked⟩

theorem reachable_complete (meets : Meets jndn server client target content)
    (reached : (system jndn server client target inode content).Reachable state) :
    Complete jndn client target content state.client := by
  by_cases counted : 1 ≤ server.fragments content.length
  · obtain ⟨image, _, _, proceeds⟩ := (system_simulates meets counted).reachable reached
    exact proceeds.complete meets counted
  · obtain ⟨_, unopened⟩ := (unopened_inductive meets (by omega)).reachable reached
    intro file here
    simp [unopened.absent] at here

/-- A completed download leaves the served file in the local one exactly if the
local file was not longer before: nothing ever cuts off what it held. -/
theorem completed_content_iff {data8192 : Text} (full : data8192.length = 8192) {chunk freshness : Int}
    (lower : 1 ≤ chunk)
    (upper : chunk ≤ 8192) {benchmarkSigner downloadSigner : Signer} (downloads : Client.Downloads jndn client target)
    (opening : 1 ≤ client.window) (nonempty : 1 ≤ content.length) (size : content.length < 2 ^ 63)
    (reached : (system jndn (.new jndn data8192 chunk freshness benchmarkSigner downloadSigner) client target inode
      content).Reachable state)
    {file : PendingFile} (opened : state.client.pendingFile = some file) (closed : file.channel.isOpen = false) :
    file.channel.content = content ↔ (target.existing jndn client).length ≤ content.length := by
  have chunkSize : (Server.new jndn data8192 chunk freshness benchmarkSigner downloadSigner).maxChunkSize = chunk :=
    maxChunkSize_new full lower upper
  have meets : Meets jndn (.new jndn data8192 chunk freshness benchmarkSigner downloadSigner) client target content :=
    { downloads, opening, nonempty, size, positive := by rw [chunkSize]; exact lower
      small := by rw [chunkSize]; exact upper }
  rw [reachable_complete meets reached file opened closed, List.append_right_eq_self, List.drop_eq_nil_iff]

/-- A server in chunks of four, with a text of the full length behind it. -/
def sampleServer : Server :=
  .new .reference (List.replicate 8192 'a') 4 0 .unsigned .unsigned

def sampleContent : Bytes := [65, 66, 67, 68, 69, 70, 71, 72, 73, 74]

def sampleFiles : FileSystem where
  lookup _ := some (.readable 0)
  content _ := sampleContent

def sampleAnswer (name : Name) : List (Event Unit) :=
  [.server (.onInterest name 0), .server .offer] ++ List.replicate 4 (.server (.worker () sampleFiles))

/-- The server answers for the count and the three segments, and the client gets its answers. -/
def sampleRun : List (Event Unit) :=
  sampleAnswer Client.sampleTarget.name ++
    (List.range 3).flatMap (fun index => sampleAnswer (Client.sampleTarget.segmentName .reference index)) ++
    (Client.sampleRun fun index => segment 4 index sampleContent).map .client

def sampleSystem (existing : Option Bytes) : System (State Unit) (Event Unit) :=
  system .reference sampleServer (Client.sampleClient existing) Client.sampleTarget 0 sampleContent

def sampleStart (existing : Option Bytes) : State Unit where
  client := .initial .reference (Client.sampleClient existing)
  server := .initial

def sampleEnd (existing : Option Bytes) : Option (Option (Bool × Bytes)) :=
  ((sampleSystem existing).run (sampleStart existing) sampleRun).map fun state =>
    state.client.pendingFile.map fun file => (file.channel.isOpen, file.channel.content)

/-- A shorter local file is overwritten. -/
theorem completed_content_sample :
    ∃ (state : State Unit) (file : PendingFile), (sampleSystem (some [1, 2, 3])).Reachable state ∧
      state.client.pendingFile = some file ∧ file.channel.isOpen = false ∧
      (file.channel.content = sampleContent ↔
        (Client.sampleTarget.existing .reference (Client.sampleClient (some [1, 2, 3]))).length ≤
          sampleContent.length) := by
  have ends : sampleEnd (some [1, 2, 3]) = some (some (false, sampleContent)) := by decide +kernel
  obtain ⟨state, ran, left⟩ := Option.map_eq_some_iff.mp ends
  obtain ⟨file, opened, same⟩ := Option.map_eq_some_iff.mp left
  obtain ⟨closed, _⟩ := Prod.mk.inj same
  have reached : (sampleSystem (some [1, 2, 3])).Reachable state := System.Reachable.run (.start rfl) ran
  exact ⟨state, file, reached, opened, closed, completed_content_iff List.length_replicate (by decide) (by decide)
    (Client.downloads_sample _) (by decide) (by decide) (by decide) reached opened closed⟩

/-- A local file of twelve bytes keeps the last two under a served file of ten. -/
theorem completed_content_stale :
    ∃ (state : State Unit) (file : PendingFile),
      (sampleSystem (some [1, 2, 3, 4, 5, 6, 7, 8, 9, 10, 11, 12])).Reachable state ∧
      state.client.pendingFile = some file ∧ file.channel.isOpen = false ∧
        file.channel.content = sampleContent ++ [11, 12] := by
  have ends : sampleEnd (some [1, 2, 3, 4, 5, 6, 7, 8, 9, 10, 11, 12]) =
      some (some (false, sampleContent ++ [11, 12])) := by decide +kernel
  obtain ⟨state, ran, left⟩ := Option.map_eq_some_iff.mp ends
  obtain ⟨file, opened, same⟩ := Option.map_eq_some_iff.mp left
  obtain ⟨closed, content⟩ := Prod.mk.inj same
  exact ⟨state, file, System.Reachable.run (.start rfl) ran, opened, closed, content⟩

end Ndnperf.Java.Download

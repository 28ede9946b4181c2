import Ndnperf.Java.Channels
import Ndnperf.Java.SteadyFile

namespace Ndnperf.Java.Channels

open Ndn Library Library.Word Library.Transition Library.Segmentation Server

variable {jndn : Jndn} {server : Server} {Thread : Type} [DecidableEq Thread]
  {state earlier before middle after : State Thread} {thread : Thread} {label : Label Thread}
  {labels : List (Label Thread)} {name : Name} {path : Text} {length : Option Int} {now fileSystem : FileSystem}
  {inode index count : Nat} {past : List Data} {pc : Pc}

/-! ## The requests that the threads work on -/

/-- A thread works on what its name asks for. -/
def Pc.Formed (jndn : Jndn) : Pc → Prop
  | .outside => True
  | .get request | .test request | .openFile request | .put request _ | .getAgain request | .read request _
  | .putSegment request _ => handles jndn request.name = some (.segment request.fileName request.segment)
  | .find name fileName | .measure name fileName => handles jndn name = some (.count fileName)
  | .putCount name _ => ∃ fileName, handles jndn name = some (.count fileName)

def Formed (jndn : Jndn) (state : State Thread) : Prop := ∀ thread, (state.workers thread).Formed jndn

theorem enter_formed (download : dispatch jndn name = .download) (entered : Pc.enter jndn name = some pc) :
    pc.Formed jndn := by
  unfold Pc.enter at entered
  split at entered
  · obtain rfl := Option.some.inj entered
    simp only [Pc.Formed, handles, download]
  · obtain rfl := Option.some.inj entered
    simp only [Pc.Formed, handles, download]
  · cases entered

theorem Formed.workerAt (formed : Formed jndn before) (asked : pc.Formed jndn) :
    Formed jndn (before.workerAt thread pc) := by
  intro other
  by_cases same : other = thread
  · rw [same, State.workerAt_self]
    exact asked
  · rw [State.workerAt_of_ne same]
    exact formed other

theorem workerStep_formed (formed : (before.workers thread).Formed jndn)
    (moved : workerStep jndn server before thread fileSystem = some after) :
    ∃ pc, after.workers = Function.update before.workers thread pc ∧ pc.Formed jndn := by
  cases here : before.workers thread with
  | outside =>
      simp only [workerStep, here] at moved
      cases moved
  | get request | test request =>
      rw [here] at formed
      simp only [workerStep, here, Option.some.injEq] at moved
      subst moved
      refine ⟨_, rfl, ?_⟩
      split <;> exact formed
  | openFile request =>
      rw [here] at formed
      simp only [workerStep, here] at moved
      split at moved <;> obtain rfl := Option.some.inj moved <;> exact ⟨_, rfl, formed⟩
  | put request channel =>
      rw [here] at formed
      simp only [workerStep, here, Option.some.injEq] at moved
      subst moved
      exact ⟨_, rfl, formed⟩
  | getAgain request | read request channel =>
      rw [here] at formed
      simp only [workerStep, here] at moved
      split at moved <;> obtain rfl := Option.some.inj moved
      · exact ⟨_, rfl, formed⟩
      · exact ⟨_, rfl, trivial⟩
  | putSegment request bytes | putCount name length =>
      simp only [workerStep, here, Option.some.injEq] at moved
      subst moved
      exact ⟨_, rfl, trivial⟩
  | find name fileName =>
      rw [here] at formed
      simp only [workerStep, here, Option.some.injEq] at moved
      subst moved
      refine ⟨_, rfl, ?_⟩
      split
      · exact formed
      · exact ⟨fileName, formed⟩
  | measure name fileName =>
      rw [here] at formed
      simp only [workerStep, here, Option.some.injEq] at moved
      subst moved
      exact ⟨_, rfl, fileName, formed⟩

theorem formed_step (formed : Formed jndn before) (moved : step jndn server before label = some after) :
    Formed jndn after := by
  cases label with
  | request thread name =>
      simp only [step] at moved
      split at moved
      · rename_i pc outside download entered
        exact Option.some.inj moved ▸ formed.workerAt (enter_formed download entered)
      · cases moved
  | worker thread fileSystem =>
      obtain ⟨pc, workers, asked⟩ := workerStep_formed (formed thread) moved
      intro other
      rw [workers]
      exact formed.workerAt asked other

theorem formed_reachable (reached : (system jndn server).Reachable state) : Formed jndn state := by
  have invariant : (system jndn server).Inductive (Formed jndn : State Thread → Prop) := by
    refine ⟨fun same thread => ?_, fun formed moved => formed_step formed moved⟩
    subst same
    exact trivial
  exact invariant.reachable reached

/-! ## A count, and what reads as the file does -/

/-- The number of segments in the reply to a count request. -/
def total (server : Server) (length : Option Int) : Int := (length.map server.fragments).getD 0

/-- A thread has a channel for the path on this file, to store or to read. -/
def Pc.Holds (path : Text) (source : Nat) : Pc → Prop
  | .put request channel | .read request channel => request.fileName = path ∧ channel.inode = source
  | _ => False

/-- A channel for the path on this file is kept or in a thread's hands. -/
def Holds (state : State Thread) (path : Text) (source : Nat) : Prop :=
  (∃ channel ∈ state.pendingFiles path, channel.inode = source) ∨ ∃ thread, (state.workers thread).Holds path source

/-- The path names the same file all along, and neither this file nor one whose
channel was kept or held for the path is written to. -/
def Steady (path : Text) (inode : Nat) (now : FileSystem) (before : State Thread) : Label Thread → Prop
  | .request _ _ => True
  | .worker _ fileSystem => fileSystem.lookup path = some (.readable inode) ∧
      ∀ source, source = inode ∨ Holds before path source → fileSystem.content source = now.content source

/-- The channel or the bytes in a thread's hands give what the file at the path has in the segments counted. -/
def Pc.Alike (server : Server) (path : Text) (inode count : Nat) (now : FileSystem) : Pc → Prop
  | .put request channel => request.fileName = path →
      (now.content channel.inode).take (count * server.maxChunkSize.toNat) = now.content inode
  | .read request channel => request.fileName = path → ∀ index < count, request.segment = (index : Nat) →
      segment server.maxChunkSize.toNat index (now.content channel.inode) =
        segment server.maxChunkSize.toNat index (now.content inode)
  | .putSegment request bytes => request.fileName = path → ∀ index < count, request.segment = (index : Nat) →
      bytes = segment server.maxChunkSize.toNat index (now.content inode)
  | _ => True

/-- The segments counted reach to the end of the file at the path, and what is
kept or held for the path reads in them as this file does. -/
structure ReadsAlike (server : Server) (path : Text) (inode count : Nat) (now : FileSystem) (state : State Thread) :
    Prop where
  reach : (now.content inode).length ≤ count * server.maxChunkSize.toNat
  kept : ∀ channel ∈ state.pendingFiles path,
    (now.content channel.inode).take (count * server.maxChunkSize.toNat) = now.content inode
  held : ∀ thread, (state.workers thread).Alike server path inode count now

/-- The thread puts a reply that tells a client the number of segments. -/
def Counts (jndn : Jndn) (server : Server) (now : FileSystem) (before middle : State Thread) (thread : Thread)
    (count : Int) : Prop :=
  workerStep jndn server before thread now = some middle ∧
    ∃ reply, middle.sent = before.sent ++ [reply] ∧ (reply.content.map jndn.blobText).bind parseLong = some count

/-- The contents of replies for the first segments of the path, in the order of the segments. -/
def Replies (jndn : Jndn) (path : Text) (sent : List Data) (count : Nat) (contents : List Bytes) : Prop :=
  List.Forall₂ (fun index content => ∃ data ∈ sent,
    handles jndn data.name = some (.segment path (index : Nat)) ∧ data.content = some content)
      (List.range count) contents

/-- When the thread has put the count, all the replies that can follow make up
the file at the path, as long as this stays the same. -/
def Whole (jndn : Jndn) (server : Server) (path : Text) (inode : Nat) (now : FileSystem) (before : State Thread)
    (thread : Thread) : Prop :=
  ∀ middle count labels after contents, Counts jndn server now before middle thread count →
    (∀ label ∈ labels, Steady path inode now before label) → (system jndn server).run middle labels = some after →
    Replies jndn path (after.sent.drop middle.sent.length) count.toNat contents → contents.flatten = now.content inode

theorem fragments_range (positive : 1 ≤ server.maxChunkSize) (length : Int) :
    -2 ^ 63 ≤ server.fragments length ∧ server.fragments length < 2 ^ 63 ∧
      server.fragments length * server.maxChunkSize < 2 ^ 63 := by
  unfold Server.fragments
  obtain ⟨lower, upper⟩ := int64_bounds (length + server.maxChunkSize - 1)
  generalize int64 (length + server.maxChunkSize - 1) = sum at lower upper ⊢
  rcases Int.le_total 0 sum with nonnegative | negative
  · have scaled := Int.tdiv_mul_le sum (show server.maxChunkSize ≠ 0 by omega)
    rw [if_pos nonnegative] at scaled
    have quotient := Int.tdiv_nonneg nonnegative (show 0 ≤ server.maxChunkSize by omega)
    have smaller := Int.tdiv_le_self server.maxChunkSize nonnegative
    exact ⟨by omega, by omega, by omega⟩
  · have magnitude := Int.natAbs_tdiv_le_natAbs sum server.maxChunkSize
    have quotient : sum.tdiv server.maxChunkSize ≤ 0 :=
      (Int.tdiv_le_tdiv (by omega) negative).trans_eq (Int.zero_tdiv _)
    have scaled := Int.mul_nonpos_of_nonpos_of_nonneg quotient (show 0 ≤ server.maxChunkSize by omega)
    exact ⟨by omega, by omega, by omega⟩

theorem total_range (positive : 1 ≤ server.maxChunkSize) (length : Option Int) :
    -2 ^ 63 ≤ total server length ∧ total server length < 2 ^ 63 ∧
      total server length * server.maxChunkSize < 2 ^ 63 := by
  cases length with
  | none => simp [total]
  | some length => exact fragments_range positive length

/-- The offset of a segment counted is a `long`. -/
theorem offset_lt (positive : 1 ≤ server.maxChunkSize) (inside : index < (total server length).toNat) :
    index * server.maxChunkSize.toNat < 2 ^ 63 := by
  have range := (total_range positive length).2.2
  generalize total server length = count at inside range
  generalize chunkEq : server.maxChunkSize = chunk at positive range ⊢
  obtain ⟨width, rfl⟩ := Int.eq_ofNat_of_zero_le (show 0 ≤ chunk by omega)
  obtain ⟨number, rfl⟩ := Int.eq_ofNat_of_zero_le (show 0 ≤ count by omega)
  have scaled : index * width ≤ number * width := Nat.mul_le_mul_right width (by simpa using inside.le)
  have bound : number * width < 2 ^ 63 := by exact_mod_cast range
  simp only [Int.toNat_natCast]
  omega

/-- The state after the count has been put. -/
def State.counted (jndn : Jndn) (server : Server) (state : State Thread) (thread : Thread) (name : Name)
    (length : Option Int) : State Thread :=
  (state.send (reply server name (jndn.blob (decimal (total server length))))).workerAt thread .outside

/-- A client reads the number of segments out of the reply. -/
theorem counts_iff (positive : 1 ≤ server.maxChunkSize) (here : before.workers thread = .putCount name length)
    {count : Int} : Counts jndn server now before middle thread count ↔
      middle = before.counted jndn server thread name length ∧ count = total server length := by
  obtain ⟨lower, upper, _⟩ := total_range positive length
  have read : ((reply server name (jndn.blob (decimal (total server length)))).content.map jndn.blobText).bind
      parseLong = some (total server length) := by
    rw [reply, server.downloadSigner.content, Option.map_some, Option.bind_some,
      jndn.blobText_blob _ (decimal_ascii _), parseLong_decimal lower upper]
  have moved : workerStep jndn server before thread now =
      some (before.counted jndn server thread name length) := by
    simp only [workerStep, here, total, State.counted]
  constructor
  · intro counts
    obtain ⟨stepped, other, sent, parsed⟩ := counts
    obtain rfl := Option.some.inj (moved.symm.trans stepped)
    obtain rfl := List.singleton_inj.mp (List.append_cancel_left sent)
    exact ⟨rfl, Option.some.inj (parsed.symm.trans read)⟩
  · intro both
    obtain ⟨rfl, rfl⟩ := both
    exact ⟨moved, _, rfl, read⟩

/-! ## The replies after the count -/

/-- What the threads hold and put after the count of a state in which everything reads alike. -/
structure Streams (jndn : Jndn) (server : Server) (path : Text) (inode count : Nat) (now : FileSystem)
    (earlier : State Thread) (past : List Data) (state : State Thread) : Prop where
  formed : Formed jndn state
  alike : ReadsAlike server path inode count now state
  within : ∀ source, Holds state path source → source = inode ∨ Holds earlier path source
  sent : ∃ more, state.sent = past ++ more ∧ ∀ data ∈ more, ∀ index < count,
    handles jndn data.name = some (.segment path (index : Nat)) →
    data.content = some (segment server.maxChunkSize.toNat index (now.content inode))

/-- A thread whose next place reads alike. -/
theorem Streams.move (streams : Streams jndn server path inode count now earlier past before)
    (asked : pc.Formed jndn) (alike : pc.Alike server path inode count now)
    (within : ∀ source, pc.Holds path source → source = inode ∨ Holds earlier path source) :
    Streams jndn server path inode count now earlier past (before.workerAt thread pc) where
  formed := streams.formed.workerAt asked
  alike := by
    refine ⟨streams.alike.reach, streams.alike.kept, fun other => ?_⟩
    by_cases same : other = thread
    · rw [same, State.workerAt_self]
      exact alike
    · rw [State.workerAt_of_ne same]
      exact streams.alike.held other
  within := by
    intro source holds
    obtain kept | ⟨other, held⟩ := holds
    · exact streams.within source (.inl kept)
    · by_cases same : other = thread
      · rw [same, State.workerAt_self] at held
        exact within source held
      · rw [State.workerAt_of_ne same] at held
        exact streams.within source (.inr ⟨other, held⟩)
  sent := streams.sent

omit [DecidableEq Thread] in
theorem Streams.send (streams : Streams jndn server path inode count now earlier past before) {data : Data}
    (cut : ∀ index < count, handles jndn data.name = some (.segment path (index : Nat)) →
      data.content = some (segment server.maxChunkSize.toNat index (now.content inode))) :
    Streams jndn server path inode count now earlier past (before.send data) where
  formed := streams.formed
  alike := ⟨streams.alike.reach, streams.alike.kept, streams.alike.held⟩
  within := streams.within
  sent := by
    obtain ⟨more, since, earlier⟩ := streams.sent
    refine ⟨more ++ [data], (congrArg (· ++ [data]) since).trans (List.append_assoc ..), fun other member => ?_⟩
    obtain listed | latest := List.mem_append.mp member
    · exact earlier other listed
    · obtain rfl := List.mem_singleton.mp latest
      exact cut

omit [DecidableEq Thread] in
/-- A thread that stores its channel keeps one that reads alike. -/
theorem Streams.store (streams : Streams jndn server path inode count now earlier past before) {request : Request}
    {channel : Channel} (here : before.workers thread = .put request channel) :
    Streams jndn server path inode count now earlier past
      { before with pendingFiles := Function.update before.pendingFiles request.fileName (some channel) } where
  formed := streams.formed
  alike := by
    refine ⟨streams.alike.reach, fun other stored => ?_, streams.alike.held⟩
    by_cases same : path = request.fileName
    · subst same
      obtain rfl : channel = other := by simpa using stored
      have held := streams.alike.held thread
      rw [here] at held
      exact held rfl
    · exact streams.alike.kept other (by simpa [Function.update_of_ne same] using stored)
  within := by
    intro source holds
    obtain ⟨other, stored, named⟩ | held := holds
    · by_cases same : path = request.fileName
      · subst same
        obtain rfl : channel = other := by simpa using stored
        exact streams.within source (.inr ⟨thread, by rw [here]; exact ⟨rfl, named⟩⟩)
      · exact streams.within source (.inl ⟨other, by simpa [Function.update_of_ne same] using stored, named⟩)
    · exact streams.within source (.inr held)
  sent := streams.sent

theorem Streams.worker (streams : Streams jndn server path inode count now earlier past before)
    (positive : 1 ≤ server.maxChunkSize) (bound : ∀ index < count, index * server.maxChunkSize.toNat < 2 ^ 63)
    (found : fileSystem.lookup path = some (.readable inode))
    (steady : ∀ source, source = inode ∨ Holds earlier path source → fileSystem.content source = now.content source)
    (moved : workerStep jndn server before thread fileSystem = some after) :
    Streams jndn server path inode count now earlier past after := by
  have formed := streams.formed thread
  have alike := streams.alike.held thread
  have within := fun source held => streams.within source (.inr ⟨thread, held⟩)
  cases here : before.workers thread with
  | outside =>
      simp only [workerStep, here] at moved
      cases moved
  | get request | test request =>
      rw [here] at formed
      simp only [workerStep, here, Option.some.injEq] at moved
      subst moved
      split <;> exact streams.move formed trivial fun _ held => False.elim held
  | openFile request =>
      rw [here] at formed
      simp only [workerStep, here] at moved
      split at moved
      · rename_i opened named
        obtain rfl := Option.some.inj moved
        have same : request.fileName = path → opened = inode := fun same => by
          simpa [same, found] using named.symm
        have opening : Streams jndn server path inode count now earlier past
            { before with opened := before.opened ++ [⟨request.fileName, opened, before.opened.length⟩] } :=
          ⟨streams.formed, ⟨streams.alike.reach, streams.alike.kept, streams.alike.held⟩, streams.within, streams.sent⟩
        refine opening.move formed (fun named => ?_) fun source held => .inl (held.2.symm.trans (same held.1))
        rw [same named]
        exact List.take_of_length_le streams.alike.reach
      · obtain rfl := Option.some.inj moved
        exact streams.move formed trivial fun _ held => False.elim held
  | put request channel =>
      rw [here] at formed
      simp only [workerStep, here, Option.some.injEq] at moved
      subst moved
      exact (streams.store here).move formed trivial fun _ held => False.elim held
  | getAgain request =>
      rw [here] at formed
      simp only [workerStep, here] at moved
      split at moved
      · rename_i channel stored
        obtain rfl := Option.some.inj moved
        refine streams.move formed (fun named index inside _ => ?_) fun source held => ?_
        · exact segment_of_take (streams.alike.kept channel (named ▸ stored)) inside
        · exact streams.within source (.inl ⟨channel, held.1 ▸ stored, held.2⟩)
      · obtain rfl := Option.some.inj moved
        exact streams.move trivial trivial fun _ held => False.elim held
  | read request channel =>
      rw [here] at formed alike within
      simp only [workerStep, here] at moved
      split at moved
      · rename_i bytes readable
        obtain rfl := Option.some.inj moved
        refine streams.move formed (fun named index inside number => ?_) fun _ held => False.elim held
        rw [number, steady _ (within channel.inode ⟨named, rfl⟩),
          Download.readChannel_offset positive (bound index inside), Option.some.injEq] at readable
        exact readable.symm.trans (alike named index inside number)
      · obtain rfl := Option.some.inj moved
        exact streams.move trivial trivial fun _ held => False.elim held
  | putSegment request bytes =>
      rw [here] at formed alike
      simp only [workerStep, here, Option.some.injEq] at moved
      subst moved
      refine (streams.send fun index inside means => ?_).move trivial trivial fun _ held => False.elim held
      rw [reply, server.downloadSigner.name] at means
      obtain ⟨named, number⟩ := Meaning.segment.inj (Option.some.inj (formed.symm.trans means))
      rw [reply, server.downloadSigner.content, alike named index inside number]
  | find name fileName =>
      rw [here] at formed
      simp only [workerStep, here, Option.some.injEq] at moved
      subst moved
      split
      · exact streams.move formed trivial fun _ held => False.elim held
      · exact streams.move ⟨fileName, formed⟩ trivial fun _ held => False.elim held
  | measure name fileName =>
      rw [here] at formed
      simp only [workerStep, here, Option.some.injEq] at moved
      subst moved
      exact streams.move ⟨fileName, formed⟩ trivial fun _ held => False.elim held
  | putCount name length =>
      rw [here] at formed
      simp only [workerStep, here, Option.some.injEq] at moved
      subst moved
      refine (streams.send fun index _ means => ?_).move trivial trivial fun _ held => False.elim held
      obtain ⟨fileName, counted⟩ := formed
      rw [reply, server.downloadSigner.name, counted] at means
      cases means

theorem Streams.step (streams : Streams jndn server path inode count now earlier past before)
    (positive : 1 ≤ server.maxChunkSize) (bound : ∀ index < count, index * server.maxChunkSize.toNat < 2 ^ 63)
    (steady : Steady path inode now earlier label) (moved : Channels.step jndn server before label = some after) :
    Streams jndn server path inode count now earlier past after := by
  cases label with
  | request thread name =>
      simp only [Channels.step] at moved
      split at moved
      · rename_i pc outside download entered
        obtain rfl := Option.some.inj moved
        have formed := enter_formed download entered
        unfold Pc.enter at entered
        split at entered
        · obtain rfl := Option.some.inj entered
          exact streams.move formed trivial fun _ held => False.elim held
        · obtain rfl := Option.some.inj entered
          exact streams.move formed trivial fun _ held => False.elim held
        · cases entered
      · cases moved
  | worker thread fileSystem => exact streams.worker positive bound steady.1 steady.2 moved

theorem Streams.run (streams : Streams jndn server path inode count now earlier past before)
    (positive : 1 ≤ server.maxChunkSize) (bound : ∀ index < count, index * server.maxChunkSize.toNat < 2 ^ 63)
    (steady : ∀ label ∈ labels, Steady path inode now earlier label)
    (ran : (system jndn server).run before labels = some after) :
    Streams jndn server path inode count now earlier past after := by
  have along : (system jndn server).Along (fun _ => Steady path inode now earlier) before labels :=
    System.along_of_forall (fun _ => steady) before
  have keeps : ∀ {before : State Thread} {label after}, Streams jndn server path inode count now earlier past before →
      Steady path inode now earlier label → (system jndn server).step before label = some after →
      Streams jndn server path inode count now earlier past after :=
    fun streams steady moved => streams.step positive bound steady moved
  exact along.keeps keeps streams ran

omit [DecidableEq Thread] in
theorem Streams.replies (streams : Streams jndn server path inode count now earlier past state)
    {contents : List Bytes} (replies : Replies jndn path (state.sent.drop past.length) count contents) :
    contents.flatten = now.content inode := by
  obtain ⟨more, since, cut⟩ := streams.sent
  rw [since, List.drop_left] at replies
  have same : contents = (List.range count).map (segment server.maxChunkSize.toNat · (now.content inode)) := by
    refine List.ext_getElem (replies.length_eq.symm.trans (List.length_map _).symm) fun index low high => ?_
    rw [List.length_map] at high
    obtain ⟨data, member, asked, put⟩ := replies.get high low
    rw [List.get_eq_getElem, List.getElem_range] at asked
    rw [cut data member index (by simpa using high) asked, Option.some.injEq] at put
    rw [List.getElem_map, List.getElem_range, put]
    rfl
  rw [same, ← List.flatMap_def, flatMap_segment_all streams.alike.reach]

/-! ## What the replies can be -/

/-- A thread left to itself answers a segment request out of the channel kept for
the path, or else out of the file at the path. -/
theorem segment_alone (positive : 1 ≤ server.maxChunkSize) (bound : index * server.maxChunkSize.toNat < 2 ^ 63)
    (found : now.lookup path = some (.readable inode)) (outside : before.workers thread = .outside)
    (means : handles jndn name = some (.segment path index)) :
    (system jndn server).CanReach (fun label => label = .request thread name ∨ label = .worker thread now)
      (fun after => after.workers = before.workers ∧
        (after.inodes path).getD inode = (before.inodes path).getD inode ∧
        after.sent = before.sent ++ [reply server name
          (segment server.maxChunkSize.toNat index (now.content ((before.inodes path).getD inode)))]) before := by
  unfold handles at means
  split at means
  · cases means
  · rename_i download
    split at means
    · rename_i first kind file last rest
      obtain ⟨rfl, number⟩ := Meaning.segment.inj (Option.some.inj means)
      refine System.canReach_mono (doDownload_alone outside download rfl) fun {after} finished => ?_
      obtain ⟨workers, inodes, sent⟩ := finished
      rw [doDownload_segment] at inodes sent
      refine ⟨workers, ?_, ?_⟩
      · rw [inodes]
        exact openChannel_source found _
      · rw [sent, openChannel_self found, Option.bind_some, answer, number, Download.readChannel_offset positive bound]
        rfl
    · cases means
    · cases means
  · cases means

theorem handles_segment (counted : handles jndn name = some (.count path)) (small : index < 2 ^ 63) :
    handles jndn (name ++ [jndn.fromSegment index]) = some (.segment path index) := by
  have number := jndn.toSegment_fromSegment index (by omega) (by omega)
  unfold handles at counted
  split at counted
  · cases counted
  · rename_i download
    split at counted
    · cases counted
    · rename_i first kind file
      obtain rfl := Meaning.count.inj (Option.some.inj counted)
      have same : dispatch jndn [first, kind, file, jndn.fromSegment index] = .download := download
      simp only [handles, List.cons_append, List.nil_append, same, number, Option.getD_some]
    · cases counted
  · cases counted

/-- It goes on so for any number of segments. -/
theorem segments_alone (positive : 1 ≤ server.maxChunkSize)
    (bound : ∀ index < count, index * server.maxChunkSize.toNat < 2 ^ 63)
    (found : now.lookup path = some (.readable inode)) (outside : before.workers thread = .outside)
    (counted : handles jndn name = some (.count path)) :
    (system jndn server).CanReach (fun label => (∃ name, label = .request thread name) ∨ label = .worker thread now)
      (fun after => after.workers = before.workers ∧
        (after.inodes path).getD inode = (before.inodes path).getD inode ∧
        after.sent = before.sent ++ (List.range count).map fun index : Nat =>
          reply server (name ++ [jndn.fromSegment index])
          (segment server.maxChunkSize.toNat index (now.content ((before.inodes path).getD inode)))) before := by
  induction count with
  | zero => exact System.canReach_refl ⟨rfl, rfl, by simp⟩
  | succ count ih =>
      refine System.canReach_trans (ih fun index inside => bound index (by omega)) fun {middle} served => ?_
      obtain ⟨workers, inodes, sent⟩ := served
      have offset := bound count (Nat.lt_succ_self count)
      have scaled : count ≤ count * server.maxChunkSize.toNat := Nat.le_mul_of_pos_right _ (by omega)
      have next := segment_alone positive offset found (congrFun workers thread ▸ outside)
        (handles_segment counted (show count < 2 ^ 63 by omega))
      refine System.canReach_mono (System.canReach_imp next fun label chosen => ?_) fun {after} finished => ?_
      · exact chosen.imp_left fun same => ⟨_, same⟩
      · obtain ⟨left, kept, latest⟩ := finished
        refine ⟨left.trans workers, kept.trans inodes, ?_⟩
        rw [latest, sent, inodes, List.range_succ, List.map_append, List.append_assoc]
        rfl

theorem Whole.contents (whole : Whole jndn server path inode now before thread) (positive : 1 ≤ server.maxChunkSize)
    (found : now.lookup path = some (.readable inode)) (here : before.workers thread = .putCount name length)
    (counted : handles jndn name = some (.count path)) (steady : ∀ label ∈ labels, Steady path inode now before label)
    (ran : (system jndn server).run (before.counted jndn server thread name length) labels = some state)
    {more : List Data} (sent : state.sent = (before.counted jndn server thread name length).sent ++ more)
    (outside : state.workers thread = .outside) {part : Nat → Bytes}
    (parts : ∀ index < (total server length).toNat,
      part index = segment server.maxChunkSize.toNat index (now.content ((state.inodes path).getD inode)) ∨
        ∃ data ∈ more, handles jndn data.name = some (.segment path (index : Nat)) ∧ data.content = some (part index)) :
    (List.range (total server length).toNat).flatMap part = now.content inode := by
  have bound : ∀ index < (total server length).toNat, index * server.maxChunkSize.toNat < 2 ^ 63 :=
    fun index inside => offset_lt positive inside
  obtain ⟨rest, after, chosen, finished, _, _, latest⟩ := segments_alone positive bound found outside counted
  have counts : Counts jndn server now before (before.counted jndn server thread name length) thread
      (total server length) := (counts_iff positive here).mpr ⟨rfl, rfl⟩
  rw [List.flatMap_def]
  refine whole _ _ (labels ++ rest) after _ counts (fun label member => ?_)
    (System.run_append.mpr ⟨state, ran, finished⟩) ?_
  · obtain first | last := List.mem_append.mp member
    · exact steady label first
    · obtain ⟨other, rfl⟩ | rfl := chosen label last
      · trivial
      · exact ⟨found, fun _ _ => rfl⟩
  · rw [latest, sent, List.append_assoc, List.drop_left]
    refine List.forall₂_map_right_iff.mpr (List.forall₂_same.mpr fun index listed => ?_)
    have inside := List.mem_range.mp listed
    obtain same | ⟨data, member, asked, put⟩ := parts index inside
    · have scaled : index ≤ index * server.maxChunkSize.toNat := Nat.le_mul_of_pos_right _ (by omega)
      have small := bound index inside
      refine ⟨_, List.mem_append_right _ (List.mem_map.mpr ⟨index, listed, rfl⟩), ?_, ?_⟩
      · rw [reply, server.downloadSigner.name]
        exact handles_segment counted (by omega)
      · rw [reply, server.downloadSigner.content, same]
    · exact ⟨data, List.mem_append_left _ member, asked, put⟩

/-- What a file gives in the segments counted, if a state is reached in which it is served from the path. -/
theorem Whole.source (whole : Whole jndn server path inode now before thread) (positive : 1 ≤ server.maxChunkSize)
    (found : now.lookup path = some (.readable inode)) (here : before.workers thread = .putCount name length)
    (counted : handles jndn name = some (.count path)) (steady : ∀ label ∈ labels, Steady path inode now before label)
    (ran : (system jndn server).run (before.counted jndn server thread name length) labels = some state)
    (sent : state.sent = (before.counted jndn server thread name length).sent)
    (outside : state.workers thread = .outside) :
    (now.content ((state.inodes path).getD inode)).take ((total server length).toNat * server.maxChunkSize.toNat) =
      now.content inode := by
  rw [← flatMap_segment]
  exact whole.contents positive found here counted steady ran (sent.trans (List.append_nil _).symm) outside
    fun _ _ => .inl rfl

/-- The file that is served from the path already. -/
theorem Whole.served (whole : Whole jndn server path inode now before thread) (positive : 1 ≤ server.maxChunkSize)
    (found : now.lookup path = some (.readable inode)) (here : before.workers thread = .putCount name length)
    (counted : handles jndn name = some (.count path)) :
    (now.content ((before.inodes path).getD inode)).take ((total server length).toNat * server.maxChunkSize.toNat) =
      now.content inode := by
  let middle := before.counted jndn server thread name length
  have begun : (system jndn server).run middle [] = some middle := rfl
  have served := whole.source positive found here counted (List.forall_mem_nil _) begun rfl (State.workerAt_self ..)
  exact served

/-- What another thread puts late, if a state is reached in which it has put it. -/
theorem Whole.late (whole : Whole jndn server path inode now before thread) (positive : 1 ≤ server.maxChunkSize)
    (found : now.lookup path = some (.readable inode)) (here : before.workers thread = .putCount name length)
    (counted : handles jndn name = some (.count path)) (steady : ∀ label ∈ labels, Steady path inode now before label)
    (ran : (system jndn server).run (before.counted jndn server thread name length) labels = some state)
    {asked : Name} {bytes : Bytes}
    (sent : state.sent = (before.counted jndn server thread name length).sent ++ [reply server asked bytes])
    (outside : state.workers thread = .outside) (kept : state.inodes = before.inodes)
    (means : handles jndn asked = some (.segment path (index : Nat))) (inside : index < (total server length).toNat) :
    bytes = segment server.maxChunkSize.toNat index (now.content inode) := by
  let cached := fun index => segment server.maxChunkSize.toNat index (now.content ((before.inodes path).getD inode))
  have earlier := whole.served positive found here counted
  have mixed : (List.range (total server length).toNat).flatMap (Function.update cached index bytes) =
      now.content inode := by
    refine whole.contents positive found here counted steady ran sent outside fun other _ => ?_
    by_cases same : other = index
    · subst same
      refine .inr ⟨_, List.mem_singleton_self _, ?_, ?_⟩
      · rw [reply, server.downloadSigner.name, means]
      · rw [reply, server.downloadSigner.content, Function.update_self]
    · rw [kept]
      exact .inl (Function.update_of_ne same ..)
  rw [← segment_of_take earlier inside]
  exact eq_of_flatMap_update inside (mixed.trans ((flatMap_segment _ _ _).trans earlier).symm)

theorem Whole.alike (whole : Whole jndn server path inode now before thread) (positive : 1 ≤ server.maxChunkSize)
    (formed : Formed jndn before) (found : now.lookup path = some (.readable inode))
    (here : before.workers thread = .putCount name length) (counted : handles jndn name = some (.count path)) :
    ReadsAlike server path inode (total server length).toNat now before := by
  let middle := before.counted jndn server thread name length
  have idle : middle.workers thread = .outside := State.workerAt_self ..
  have earlier := whole.served positive found here counted
  have steady : ∀ other, Steady path inode now before (.worker other now) := fun other => ⟨found, fun _ _ => rfl⟩
  refine ⟨?_, fun channel stored => ?_, fun other => ?_⟩
  · rw [← earlier, List.length_take]
    exact Nat.min_le_left ..
  · have kept : before.inodes path = some channel.inode := congrArg (Option.map Channel.inode) stored
    rwa [kept] at earlier
  · have asked := formed other
    by_cases same : other = thread
    · rw [same, here]
      trivial
    have busy : middle.workers other = before.workers other := State.workerAt_of_ne same _
    cases holds : before.workers other with
    | put request channel =>
        intro named
        have stored : step jndn server middle (.worker other now) = some (middle.storing other request channel) := by
          simp only [step, workerStep, busy, holds]
          rfl
        have kept : (middle.storing other request channel).inodes path = some channel.inode := by
          have latest : (middle.storing other request channel).pendingFiles request.fileName = some channel :=
            Function.update_self ..
          rw [State.inodes_apply, ← named, latest, Option.map_some]
        have source := whole.source positive found here counted (List.forall_mem_singleton.mpr (steady other))
          ((System.run_singleton _ _).trans stored) rfl ((State.workerAt_of_ne (Ne.symm same) _).trans idle)
        rwa [kept] at source
    | read request channel =>
        intro named index inside number
        rw [holds] at asked
        let bytes := segment server.maxChunkSize.toNat index (now.content channel.inode)
        have read : step jndn server middle (.worker other now) =
            some (middle.workerAt other (.putSegment request bytes)) := by
          simp only [step, workerStep, busy, holds, number,
            Download.readChannel_offset positive (offset_lt positive inside), bytes]
        have putting : (middle.workerAt other (.putSegment request bytes)).workers other = .putSegment request bytes :=
          State.workerAt_self ..
        have put : step jndn server (middle.workerAt other (.putSegment request bytes)) (.worker other now) =
            some (((middle.workerAt other (.putSegment request bytes)).send
              (reply server request.name bytes)).workerAt other .outside) := by
          simp only [step, workerStep, putting]
        have twice : ∀ label ∈ [Label.worker other now, .worker other now], Steady path inode now before label :=
          List.forall_mem_cons.mpr ⟨steady other, List.forall_mem_singleton.mpr (steady other)⟩
        refine whole.late positive found here counted twice
          (System.run_cons.mpr ⟨_, read, (System.run_singleton _ _).trans put⟩) rfl ?_ rfl ?_ inside
        · rw [State.workerAt_of_ne (Ne.symm same)]
          exact (State.workerAt_of_ne (Ne.symm same) _).trans idle
        · rw [← named, ← number]
          exact asked
    | putSegment request bytes =>
        intro named index inside number
        rw [holds] at asked
        have put : step jndn server middle (.worker other now) =
            some ((middle.send (reply server request.name bytes)).workerAt other .outside) := by
          simp only [step, workerStep, busy, holds]
        refine whole.late positive found here counted (List.forall_mem_singleton.mpr (steady other))
          ((System.run_singleton _ _).trans put) rfl ?_ rfl ?_ inside
        · exact (State.workerAt_of_ne (Ne.symm same) _).trans idle
        · rw [← named, ← number]
          exact asked
    | outside | get request | test request | openFile request | getAgain request | find name fileName
    | measure name fileName | putCount name length => trivial

/-- After any requests and replacements, the replies that follow a count make up
the file at the path exactly if the segments counted reach to its end and, in
these segments, the file whose channel is kept for the path reads as it does,
and so does each that a thread has opened and not stored yet or is about to
read, and whatever a thread has read and not put yet. -/
theorem replies_whole_iff (positive : 1 ≤ server.maxChunkSize) (reached : (system jndn server).Reachable before)
    (here : before.workers thread = .putCount name length) (counted : handles jndn name = some (.count path))
    (found : now.lookup path = some (.readable inode)) :
    Whole jndn server path inode now before thread ↔
      ReadsAlike server path inode (total server length).toNat now before := by
  have formed := formed_reachable reached
  constructor
  · exact fun whole => whole.alike positive formed found here counted
  · intro alike middle count labels after contents counts steady ran replies
    obtain ⟨rfl, rfl⟩ := (counts_iff positive here).mp counts
    let reply := reply server name (jndn.blob (decimal (total server length)))
    have begun : Streams jndn server path inode (total server length).toNat now before (before.send reply).sent
        (before.send reply) :=
      ⟨formed, ⟨alike.reach, alike.kept, alike.held⟩, fun _ => .inr, [], (List.append_nil _).symm, by simp⟩
    have put := @Streams.move _ _ _ _ before _ thread _ _ _ _ _ .outside begun trivial trivial fun _ held =>
        False.elim held
    exact (put.run positive (fun index inside => offset_lt positive inside) steady ran).replies replies

/-- The count of a file reaches to its end exactly if it is not wrapped. -/
theorem reach_iff (positive : 1 ≤ server.maxChunkSize) (small : server.maxChunkSize ≤ 8192) {size : Nat}
    (fits : size < 2 ^ 63) :
    size ≤ (total server (some (size : Int))).toNat * server.maxChunkSize.toNat ↔
      size + server.maxChunkSize ≤ 2 ^ 63 := by
  rw [total, Option.map_some, Option.getD_some]
  by_cases whole : size + server.maxChunkSize ≤ 2 ^ 63
  · rw [(Download.fragments_of_fits positive whole).1, Int.toNat_natCast]
    exact iff_of_true (length_le_segmentCount_mul (by omega)) whole
  · have none := (Download.fragments_of_overflow small fits (by omega)).2
    rw [Int.toNat_of_nonpos none]
    omega

/-! A file of three bytes in chunks of two. While its segments are counted, a
thread is about to read the second. -/

def sampleSegment (index : Int) : Name := sampleRequest.take 3 ++ [Reference.fromSegment index]

def countHistory : List (Label Bool) :=
  [.request false (sampleSegment 1)] ++ sampleSteps false 5 ++ [.request true (sampleRequest.take 3)] ++
    sampleSteps true 2

theorem replies_whole_sample :
    ∃ before, (system .reference sampleServer).run .initial countHistory = some before ∧
      before.workers false = .read ⟨sampleSegment 1, ['f'], 1⟩ ⟨['f'], 7, 0⟩ ∧
      before.workers true = .putCount (sampleRequest.take 3) (some 3) ∧
      Whole .reference sampleServer ['f'] 7 sampleFiles before true := by
  have ends : ((system .reference sampleServer).run .initial countHistory).map (fun state : State Bool =>
      (state.pendingFiles ['f'], state.workers false, state.workers true)) =
        some (some ⟨['f'], 7, 0⟩, .read ⟨sampleSegment 1, ['f'], 1⟩ ⟨['f'], 7, 0⟩,
          .putCount (sampleRequest.take 3) (some 3)) := by decide +kernel
  obtain ⟨before, ran, shown⟩ := Option.map_eq_some_iff.mp ends
  simp only [Prod.mk.injEq] at shown
  obtain ⟨stored, reading, counting⟩ := shown
  have counted : handles .reference (sampleRequest.take 3) = some (.count ['f']) := by decide +kernel
  have alike : ReadsAlike sampleServer ['f'] 7 (total sampleServer (some 3)).toNat sampleFiles before := by
    refine ⟨by decide, fun channel kept => ?_, fun thread => ?_⟩
    · obtain rfl := Option.some.inj (stored.symm.trans kept)
      decide
    · cases thread with
      | false =>
          rw [reading]
          exact fun _ _ _ _ => rfl
      | true =>
          rw [counting]
          trivial
  exact ⟨before, ran, reading, counting,
    (replies_whole_iff (by decide) (.run (.start rfl) ran) counting counted rfl).mpr alike⟩

/-! A file of one byte in place of an older one. -/

def replacedFiles (inode : Nat) : FileSystem where
  lookup path := if path = ['f'] then some (.readable inode) else none
  content inode := [UInt8.ofNat inode]

def replacedSteps (thread : Bool) (count inode : Nat) : List (Label Bool) :=
  List.replicate count (.worker thread (replacedFiles inode))

/-- The first thread's count request for the newer file, up to the count. -/
def countSteps : List (Label Bool) := [.request true (sampleRequest.take 3)] ++ replacedSteps true 2 66

/-- One segment is counted, and after some more steps it has been put with the older file's byte. -/
def Mixed (history further : List (Label Bool)) : Prop :=
  ∃ before middle after, (system .reference sampleServer).run .initial history = some before ∧
    Counts .reference sampleServer (replacedFiles 66) before middle true 1 ∧
    (system .reference sampleServer).run middle further = some after ∧
    Replies .reference ['f'] (after.sent.drop middle.sent.length) 1 [[65]]

/-- The older file's channel is kept from an earlier request; or a thread has
opened that file, and puts the channel after the count. -/
theorem replaced_mixed :
    Mixed ([.request true (sampleSegment 0)] ++ replacedSteps true 7 65 ++ countSteps)
        ([.request true (sampleSegment 0)] ++ replacedSteps true 4 66) ∧
      Mixed ([.request false (sampleSegment 0)] ++ replacedSteps false 3 65 ++ countSteps) (replacedSteps false 4 66) ∧
      (replacedFiles 66).lookup ['f'] = some (.readable 66) ∧ (replacedFiles 66).content 66 = [66] := by
  refine ⟨⟨_, _, _, rfl, ⟨rfl, _, rfl, ?_⟩, rfl, ?_⟩, ⟨_, _, _, rfl, ⟨rfl, _, rfl, ?_⟩, rfl, ?_⟩, rfl, rfl⟩
  · decide +kernel
  · exact .cons ⟨_, List.mem_singleton_self _, by decide +kernel, by decide +kernel⟩ .nil
  · decide +kernel
  · exact .cons ⟨_, List.mem_singleton_self _, by decide +kernel, by decide +kernel⟩ .nil

end Ndnperf.Java.Channels

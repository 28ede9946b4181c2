import Ndnperf.Java.Server

namespace Ndnperf.Java.Channels

open Ndn Library.Word Library.Transition Server

/-! `doDownload` on several threads: each access of `pending_files` and of the
file system is a step of its own. `ConcurrentHashMap` makes each of them atomic. -/

/-- An open file. Two channels of one file have different numbers. -/
structure Channel where
  fileName : Text
  inode : Nat
  number : Nat
deriving DecidableEq, Repr

/-- What `doDownload` reads from a name with more than three components. -/
structure Request where
  name : Name
  fileName : Text
  segment : Int
deriving DecidableEq, Repr

/-- Where a thread is: for a segment before the first `pending_files.get`,
`exists`, the constructor of `RandomAccessFile`, `put`, the second `get`, `read`
or `putData`; for a count before `exists`, `length` or `putData`, with the
length of what exists. -/
inductive Pc where
  | outside
  | get (request : Request)
  | test (request : Request)
  | openFile (request : Request)
  | put (request : Request) (channel : Channel)
  | getAgain (request : Request)
  | read (request : Request) (channel : Channel)
  | putSegment (request : Request) (bytes : Bytes)
  | find (name : Name) (fileName : Text)
  | measure (name : Name) (fileName : Text)
  | putCount (name : Name) (length : Option Int)
deriving DecidableEq, Repr

/-- Where `doDownload` begins, by the size of the name. -/
def Pc.enter (jndn : Jndn) (name : Name) : Option Pc :=
  match name with
  | _ :: _ :: file :: last :: _ =>
      some (.get { name, fileName := jndn.toEscapedString file, segment := (jndn.toSegment last).getD 0 })
  | [_, _, file] => some (.find name (jndn.toEscapedString file))
  | _ => none

/-- `opened` records every channel so far, `sent` the Data put on the face. -/
structure State (Thread : Type) where
  workers : Thread → Pc
  pendingFiles : Text → Option Channel
  opened : List Channel
  sent : List Data

inductive Label (Thread : Type) where
  | request (thread : Thread) (name : Name)
  | worker (thread : Thread) (fileSystem : FileSystem)

variable (jndn : Jndn) (server : Server) {Thread : Type} [DecidableEq Thread]

def State.workerAt (state : State Thread) (thread : Thread) (pc : Pc) : State Thread :=
  { state with workers := Function.update state.workers thread pc }

def reply (name : Name) (bytes : Bytes) : Data :=
  server.downloadSigner.sign { server.dataModel with name, content := some bytes }

def State.send (state : State Thread) (data : Data) : State Thread := { state with sent := state.sent ++ [data] }

/-- A directory and a file that is gone by now are a `FileNotFoundException`; no
channel at the second `get` is a `NullPointerException`, which `run` catches. A
file that is gone before its length is read has length zero. -/
def workerStep (state : State Thread) (thread : Thread) (fileSystem : FileSystem) : Option (State Thread) :=
  match state.workers thread with
  | .outside => none
  | .get request =>
      some (state.workerAt thread
        (if state.pendingFiles request.fileName = none then .test request else .getAgain request))
  | .test request =>
      some (state.workerAt thread
        (if (fileSystem.lookup request.fileName).isSome then .openFile request else .getAgain request))
  | .openFile request =>
      match fileSystem.lookup request.fileName with
      | some (.readable inode) =>
          let channel : Channel := { fileName := request.fileName, inode, number := state.opened.length }
          some ({ state with opened := state.opened ++ [channel] }.workerAt thread (.put request channel))
      | _ => some (state.workerAt thread (.getAgain request))
  | .put request channel =>
      some ({ state with
        pendingFiles := Function.update state.pendingFiles request.fileName (some channel) }.workerAt thread
          (.getAgain request))
  | .getAgain request =>
      match state.pendingFiles request.fileName with
      | some channel => some (state.workerAt thread (.read request channel))
      | none => some (state.workerAt thread .outside)
  | .read request channel =>
      match server.readChannel (fileSystem.content channel.inode) (int64 (server.maxChunkSize * request.segment)) with
      | some bytes => some (state.workerAt thread (.putSegment request bytes))
      | none => some (state.workerAt thread .outside)
  | .putSegment request bytes => some ((state.send (reply server request.name bytes)).workerAt thread .outside)
  | .find name fileName =>
      some (state.workerAt thread
        (if (fileSystem.lookup fileName).isSome then .measure name fileName else .putCount name none))
  | .measure name fileName =>
      some (state.workerAt thread (.putCount name (some ((fileSystem.size fileName).getD 0))))
  | .putCount name length =>
      let fragment := (length.map server.fragments).getD 0
      some ((state.send (reply server name (jndn.blob (decimal fragment)))).workerAt thread .outside)

def step (state : State Thread) : Label Thread → Option (State Thread)
  | .request thread name =>
      match state.workers thread, dispatch jndn name, Pc.enter jndn name with
      | .outside, .download, some pc => some (state.workerAt thread pc)
      | _, _, _ => none
  | .worker thread fileSystem => workerStep jndn server state thread fileSystem

def State.initial : State Thread where
  workers _ := .outside
  pendingFiles _ := none
  opened := []
  sent := []

def system : System (State Thread) (Label Thread) where
  start state := state = .initial
  step := step jndn server

variable {jndn server} {state before after : State Thread} {thread : Thread} {label : Label Thread}
  {fileSystem : FileSystem} {request : Request} {channel : Channel}

/-! ## What has been opened -/

/-- A file name has had one channel, and each channel is in `pending_files` or
held by the thread that is about to put it there. -/
structure OpenedOnce (state : State Thread) : Prop where
  once : (state.opened.map Channel.fileName).Nodup
  kept : ∀ channel ∈ state.opened, state.pendingFiles channel.fileName = some channel ∨
    ∃ thread request, state.workers thread = .put request channel

/-- Whoever opens a file finds none stored under its name, and nobody else about to store one. -/
def Alone (state : State Thread) : Label Thread → Prop
  | .request _ _ => True
  | .worker thread fileSystem => ∀ request inode, state.workers thread = .openFile request →
      fileSystem.lookup request.fileName = some (.readable inode) → state.pendingFiles request.fileName = none ∧
        ∀ other waiting channel, state.workers other = .put waiting channel → waiting.fileName ≠ request.fileName

/-- The channels in the map and in the threads' hands have been opened under these names. -/
structure Sound (state : State Thread) : Prop where
  stored : ∀ {fileName channel}, state.pendingFiles fileName = some channel →
    channel ∈ state.opened ∧ channel.fileName = fileName
  held : ∀ {thread request channel}, state.workers thread = .put request channel →
    channel ∈ state.opened ∧ channel.fileName = request.fileName

theorem State.workerAt_self (state : State Thread) (thread : Thread) (pc : Pc) :
    (state.workerAt thread pc).workers thread = pc := Function.update_self ..

theorem State.workerAt_of_ne {other : Thread} (different : other ≠ thread) (pc : Pc) :
    (state.workerAt thread pc).workers other = state.workers other := Function.update_of_ne different ..

/-! ## What a step can do -/

def Pc.Empty (pc : Pc) : Prop := ∀ request channel, pc ≠ .put request channel

theorem Pc.enter_empty {name : Name} {pc : Pc} (entered : Pc.enter jndn name = some pc) : pc.Empty := by
  intro request channel same
  subst same
  unfold Pc.enter at entered
  split at entered <;> cases entered

/-- The state after a file has been opened. -/
def State.opening (state : State Thread) (thread : Thread) (request : Request) (channel : Channel) : State Thread :=
  { state with opened := state.opened ++ [channel] }.workerAt thread (.put request channel)

/-- The state after its channel has been put. -/
def State.storing (state : State Thread) (thread : Thread) (request : Request) (channel : Channel) : State Thread :=
  { state with pendingFiles := Function.update state.pendingFiles request.fileName (some channel) }.workerAt thread
    (.getAgain request)

/-- A thread opens a file, stores its channel, or does neither. -/
theorem workerStep_cases (moved : workerStep jndn server before thread fileSystem = some after) :
    (∃ (pc : Pc) (sent : List Data), pc.Empty ∧ (before.workers thread).Empty ∧
        after = { before with sent }.workerAt thread pc ∧ ∀ request inode, before.workers thread = .openFile request →
          fileSystem.lookup request.fileName ≠ some (.readable inode)) ∨
      (∃ request inode, before.workers thread = .openFile request ∧
        fileSystem.lookup request.fileName = some (.readable inode) ∧
        after = before.opening thread request ⟨request.fileName, inode, before.opened.length⟩) ∨
      ∃ request channel, before.workers thread = .put request channel ∧
        after = before.storing thread request channel := by
  cases here : before.workers thread with
  | outside =>
      simp only [workerStep, here] at moved
      cases moved
  | get request | test request | find name fileName =>
      simp only [workerStep, here, Option.some.injEq] at moved
      refine .inl ⟨_, before.sent, ?_, by simp [Pc.Empty], moved.symm, by simp⟩
      split <;> simp [Pc.Empty]
  | openFile request =>
      simp only [workerStep, here] at moved
      split at moved
      · rename_i inode found
        exact .inr (.inl ⟨request, inode, rfl, found, (Option.some.inj moved).symm⟩)
      · rename_i other
        refine .inl ⟨_, before.sent, ?_, by simp [Pc.Empty], (Option.some.inj moved).symm, ?_⟩
        · simp [Pc.Empty]
        · intro opening inode same found
          obtain rfl := Pc.openFile.inj same
          exact other inode found
  | put request channel =>
      simp only [workerStep, here, Option.some.injEq] at moved
      exact .inr (.inr ⟨request, channel, rfl, moved.symm⟩)
  | getAgain request | read request channel =>
      simp only [workerStep, here] at moved
      refine .inl ?_
      split at moved
      · exact ⟨_, before.sent, by simp [Pc.Empty], by simp [Pc.Empty], (Option.some.inj moved).symm, by simp⟩
      · exact ⟨_, before.sent, by simp [Pc.Empty], by simp [Pc.Empty], (Option.some.inj moved).symm, by simp⟩
  | putSegment request bytes | measure name fileName | putCount name length =>
      simp only [workerStep, here, Option.some.injEq] at moved
      exact .inl ⟨_, _, by simp [Pc.Empty], by simp [Pc.Empty], moved.symm, by simp⟩

/-- A thread that neither held a channel nor holds one now. -/
theorem Sound.move {pc : Pc} (sound : Sound before) (empty : pc.Empty) (sent : List Data) :
    Sound ({ before with sent }.workerAt thread pc) where
  stored := sound.stored
  held := by
    intro other request channel here
    by_cases same : other = thread
    · subst same
      exact absurd ((State.workerAt_self ..).symm.trans here) (empty request channel)
    · exact sound.held ((State.workerAt_of_ne same pc).symm.trans here)

theorem OpenedOnce.move {pc : Pc} (opened : OpenedOnce before) (free : (before.workers thread).Empty)
    (sent : List Data) : OpenedOnce ({ before with sent }.workerAt thread pc) where
  once := opened.once
  kept := by
    intro channel member
    refine (opened.kept channel member).imp_right fun holding => ?_
    obtain ⟨other, request, here⟩ := holding
    have different : other ≠ thread := fun same => free request channel (same ▸ here)
    exact ⟨other, request, (State.workerAt_of_ne different pc).trans here⟩

/-! ## Opening a file -/

theorem Sound.opening (sound : Sound before) (named : channel.fileName = request.fileName) :
    Sound (before.opening thread request channel) where
  stored found := by
    obtain ⟨member, same⟩ := sound.stored found
    exact ⟨List.mem_append_left _ member, same⟩
  held := by
    intro other waiting opened here
    by_cases same : other = thread
    · subst same
      have put : Pc.put request channel = .put waiting opened := (State.workerAt_self ..).symm.trans here
      obtain ⟨rfl, rfl⟩ := Pc.put.inj put
      exact ⟨List.mem_append_right _ (List.mem_singleton_self _), named⟩
    · obtain ⟨member, same⟩ := sound.held ((State.workerAt_of_ne same _).symm.trans here)
      exact ⟨List.mem_append_left _ member, same⟩

/-- The new channel is the only one of its name exactly if none is stored and none is held. -/
theorem opening_iff (sound : Sound before) (opened : OpenedOnce before)
    (here : before.workers thread = .openFile request) (named : channel.fileName = request.fileName) :
    OpenedOnce (before.opening thread request channel) ↔
      before.pendingFiles request.fileName = none ∧
        ∀ other waiting held, before.workers other = .put waiting held → waiting.fileName ≠ request.fileName := by
  constructor
  · intro next
    have absent : request.fileName ∉ before.opened.map Channel.fileName := by
      have distinct := next.once
      simp only [State.opening, State.workerAt, List.map_append, List.map_cons, List.map_nil, named] at distinct
      exact fun member => (List.nodup_append.mp distinct).2.2 _ member _ (List.mem_singleton_self _) rfl
    refine ⟨?_, fun other waiting held waits same => absent ?_⟩
    · by_contra some
      obtain ⟨stored, found⟩ := Option.ne_none_iff_exists'.mp some
      obtain ⟨member, same⟩ := sound.stored found
      exact absent (same ▸ List.mem_map_of_mem member)
    · obtain ⟨member, filed⟩ := sound.held waits
      exact same ▸ filed ▸ List.mem_map_of_mem member
  · intro alone
    obtain ⟨none, unheld⟩ := alone
    refine ⟨?_, fun other member => ?_⟩
    · simp only [State.opening, State.workerAt, List.map_append, List.map_cons, List.map_nil]
      refine List.nodup_append.mpr ⟨opened.once, List.nodup_singleton _, ?_⟩
      intro fileName listed last latest same
      obtain ⟨other, member, rfl⟩ := List.mem_map.mp listed
      have alike : other.fileName = request.fileName := same.trans ((List.mem_singleton.mp latest).trans named)
      obtain stored | ⟨holder, waiting, waits⟩ := opened.kept other member
      · rw [alike, none] at stored
        cases stored
      · exact unheld holder waiting other waits ((sound.held waits).2.symm.trans alike)
    · obtain earlier | new := List.mem_append.mp member
      · refine (opened.kept other earlier).imp_right fun holding => ?_
        obtain ⟨holder, waiting, waits⟩ := holding
        have different : holder ≠ thread := by
          rintro rfl
          cases here.symm.trans waits
        exact ⟨holder, waiting, (State.workerAt_of_ne different _).trans waits⟩
      · obtain rfl := List.mem_singleton.mp new
        exact .inr ⟨thread, request, State.workerAt_self ..⟩

/-! ## Storing a channel -/

theorem Sound.storing (sound : Sound before) (here : before.workers thread = .put request channel) :
    Sound (before.storing thread request channel) where
  stored := by
    intro fileName found stored
    obtain ⟨member, named⟩ := sound.held here
    by_cases same : fileName = request.fileName
    · rw [same] at stored
      have latest : (before.storing thread request channel).pendingFiles request.fileName = some channel :=
        Function.update_self ..
      obtain rfl : channel = found := Option.some.inj (latest.symm.trans stored)
      exact ⟨member, named.trans same.symm⟩
    · exact sound.stored ((Function.update_of_ne same ..).symm.trans stored)
  held := by
    intro other waiting held waits
    by_cases same : other = thread
    · subst same
      cases (State.workerAt_self ..).symm.trans waits
    · exact sound.held ((State.workerAt_of_ne same _).symm.trans waits)

/-- No other channel of the name has been opened, so none is lost from the map. -/
theorem OpenedOnce.storing (opened : OpenedOnce before) (sound : Sound before)
    (here : before.workers thread = .put request channel) : OpenedOnce (before.storing thread request channel) where
  once := opened.once
  kept := by
    intro other member
    obtain ⟨listed, named⟩ := sound.held here
    by_cases same : other.fileName = request.fileName
    · obtain rfl : other = channel := List.inj_on_of_nodup_map opened.once member listed (same.trans named.symm)
      exact .inl (same ▸ Function.update_self ..)
    · refine (opened.kept other member).imp (fun stored => ?_) fun holding => ?_
      · exact (Function.update_of_ne same ..).trans stored
      · obtain ⟨holder, waiting, waits⟩ := holding
        have different : holder ≠ thread := by
          rintro rfl
          obtain ⟨_, rfl⟩ := Pc.put.inj (here.symm.trans waits)
          exact same named
        exact ⟨holder, waiting, (State.workerAt_of_ne different _).trans waits⟩

/-! ## A thread left to itself -/

/-- `pending_files` as the handler of one step has it. -/
def State.inodes (state : State Thread) : PendingFiles :=
  fun fileName => (state.pendingFiles fileName).map Channel.inode

omit [DecidableEq Thread] in
theorem State.inodes_apply (state : State Thread) (fileName : Text) :
    state.inodes fileName = (state.pendingFiles fileName).map Channel.inode := rfl

@[simp] theorem State.workerAt_inodes (state : State Thread) (thread : Thread) (pc : Pc) :
    (state.workerAt thread pc).inodes = state.inodes := rfl

@[simp] theorem State.workerAt_sent (state : State Thread) (thread : Thread) (pc : Pc) :
    (state.workerAt thread pc).sent = state.sent := rfl

@[simp] theorem State.workerAt_again (state : State Thread) (thread : Thread) (pc next : Pc) :
    (state.workerAt thread pc).workerAt thread next = state.workerAt thread next := by
  rw [State.workerAt, State.workerAt, State.workerAt, Function.update_idem]

/-- What the read at the segment of `request` is answered with. -/
def answer (server : Server) (fileSystem : FileSystem) (request : Request) (inode : Nat) : Option Data :=
  (server.readChannel (fileSystem.content inode) (int64 (server.maxChunkSize * request.segment))).map
    (reply server request.name)

/-- The thread is before the second `get`, and `openChannel` has been done. -/
def Asked (before : State Thread) (thread : Thread) (fileSystem : FileSystem) (request : Request)
    (after : State Thread) : Prop :=
  after.workers = (before.workerAt thread (.getAgain request)).workers ∧
    after.inodes = openChannel fileSystem request.fileName before.inodes ∧ after.sent = before.sent

theorem asked_workerAt (before : State Thread) (thread : Thread) (fileSystem : FileSystem) (request : Request)
    (pc : Pc) :
    Asked (before.workerAt thread pc) thread fileSystem request = Asked before thread fileSystem request := by
  funext after
  simp only [Asked, State.workerAt_again, State.workerAt_inodes, State.workerAt_sent]

/-- The thread is done; it has put at most one Data, and these channels are kept. -/
def Answered (before : State Thread) (thread : Thread) (inodes : PendingFiles) (data : Option Data)
    (after : State Thread) : Prop :=
  after.workers = (before.workerAt thread .outside).workers ∧ after.inodes = inodes ∧
    after.sent = before.sent ++ data.toList

theorem answered_workerAt (before : State Thread) (thread : Thread) (pc : Pc) (inodes : PendingFiles)
    (data : Option Data) :
    Answered (before.workerAt thread pc) thread inodes data = Answered before thread inodes data := by
  funext after
  simp only [Answered, State.workerAt_again, State.workerAt_sent]

theorem doDownload_segment (first kind file last : Component) (rest : Name) (pendingFiles : PendingFiles) :
    server.doDownload jndn fileSystem (first :: kind :: file :: last :: rest) pendingFiles =
      ((openChannel fileSystem (jndn.toEscapedString file) pendingFiles (jndn.toEscapedString file)).bind
          (answer server fileSystem ⟨first :: kind :: file :: last :: rest, jndn.toEscapedString file,
            (jndn.toSegment last).getD 0⟩),
        openChannel fileSystem (jndn.toEscapedString file) pendingFiles) := by
  simp only [doDownload]
  cases openChannel fileSystem (jndn.toEscapedString file) pendingFiles (jndn.toEscapedString file) with
  | none => rfl
  | some inode =>
      simp only [Option.bind_some, answer]
      split
      · rename_i bytes readable
        rw [readable, Option.map_some]
        rfl
      · rename_i unreadable
        rw [unreadable, Option.map_none]

section Alone

variable {Chosen : Label Thread → Prop} (chosen : Chosen (.worker thread fileSystem))
include chosen

theorem openFile_alone (here : before.workers thread = .openFile request)
    (absent : before.pendingFiles request.fileName = none) :
    (system jndn server).CanReach Chosen (Asked before thread fileSystem request) before := by
  cases found : fileSystem.lookup request.fileName with
  | none =>
      have moved : workerStep jndn server before thread fileSystem =
          some (before.workerAt thread (.getAgain request)) := by
        simp only [workerStep, here, found]
      refine System.canReach_of_step chosen moved ⟨rfl, ?_, rfl⟩
      simp [openChannel, State.inodes_apply, absent, found]
  | some node =>
      cases node with
      | other length =>
          have moved : workerStep jndn server before thread fileSystem =
              some (before.workerAt thread (.getAgain request)) := by
            simp only [workerStep, here, found]
          refine System.canReach_of_step chosen moved ⟨rfl, ?_, rfl⟩
          simp [openChannel, State.inodes_apply, absent, found]
      | readable inode =>
          let channel : Channel := ⟨request.fileName, inode, before.opened.length⟩
          let opening := before.opening thread request channel
          have moved : workerStep jndn server before thread fileSystem = some opening := by
            simp only [workerStep, here, found]
            rfl
          have holding : opening.workers thread = .put request channel := State.workerAt_self ..
          have stored : workerStep jndn server opening thread fileSystem =
              some (opening.storing thread request channel) := by
            simp only [workerStep, holding]
            rfl
          refine System.canReach_cons chosen moved (System.canReach_of_step chosen stored ⟨?_, ?_, rfl⟩)
          · exact Function.update_idem ..
          · funext fileName
            simp only [openChannel, State.inodes_apply, absent, found, Option.map_none, if_true, State.storing,
              State.workerAt, Function.update_apply]
            by_cases same : fileName = request.fileName
            · simp only [same, if_true, Option.map_some, channel]
            · simp only [same, if_false]
              rfl

theorem test_alone (here : before.workers thread = .test request)
    (absent : before.pendingFiles request.fileName = none) :
    (system jndn server).CanReach Chosen (Asked before thread fileSystem request) before := by
  cases found : fileSystem.lookup request.fileName with
  | none =>
      have moved : workerStep jndn server before thread fileSystem =
          some (before.workerAt thread (.getAgain request)) := by
        simp [workerStep, here, found]
      refine System.canReach_of_step chosen moved ⟨rfl, ?_, rfl⟩
      simp [openChannel, State.inodes_apply, absent, found]
  | some node =>
      have moved : workerStep jndn server before thread fileSystem =
          some (before.workerAt thread (.openFile request)) := by
        simp [workerStep, here, found]
      refine System.canReach_cons chosen moved ?_
      rw [← asked_workerAt before thread fileSystem request (.openFile request)]
      exact openFile_alone chosen (State.workerAt_self ..) absent

/-- The accesses up to the second `get` do what `openChannel` does. -/
theorem get_alone (here : before.workers thread = .get request) :
    (system jndn server).CanReach Chosen (Asked before thread fileSystem request) before := by
  cases stored : before.pendingFiles request.fileName with
  | some channel =>
      have moved : workerStep jndn server before thread fileSystem =
          some (before.workerAt thread (.getAgain request)) := by
        simp [workerStep, here, stored]
      refine System.canReach_of_step chosen moved ⟨rfl, ?_, rfl⟩
      simp [openChannel, State.inodes_apply, stored]
  | none =>
      have moved : workerStep jndn server before thread fileSystem = some (before.workerAt thread (.test request)) := by
        simp [workerStep, here, stored]
      refine System.canReach_cons chosen moved ?_
      rw [← asked_workerAt before thread fileSystem request (.test request)]
      exact test_alone chosen (State.workerAt_self ..) stored

/-- The second `get` and the read answer what the file has at the segment. -/
theorem getAgain_alone (here : before.workers thread = .getAgain request) :
    (system jndn server).CanReach Chosen
      (Answered before thread before.inodes ((before.inodes request.fileName).bind (answer server fileSystem request)))
      before := by
  cases stored : before.pendingFiles request.fileName with
  | none =>
      have moved : workerStep jndn server before thread fileSystem = some (before.workerAt thread .outside) := by
        simp only [workerStep, here, stored]
      refine System.canReach_of_step chosen moved ⟨rfl, rfl, ?_⟩
      simp [State.inodes_apply, stored]
  | some channel =>
      let reads := before.workerAt thread (.read request channel)
      have moved : workerStep jndn server before thread fileSystem = some reads := by
        simp only [workerStep, here, stored, reads]
      have reading : reads.workers thread = .read request channel := State.workerAt_self ..
      refine System.canReach_cons chosen moved ?_
      cases readable : server.readChannel (fileSystem.content channel.inode)
          (int64 (server.maxChunkSize * request.segment)) with
      | none =>
          have failed : workerStep jndn server reads thread fileSystem = some (reads.workerAt thread .outside) := by
            simp only [workerStep, reading, readable]
          refine System.canReach_of_step chosen failed ⟨Function.update_idem .., rfl, ?_⟩
          simp [State.inodes_apply, stored, answer, readable, reads]
      | some bytes =>
          let puts := reads.workerAt thread (.putSegment request bytes)
          have read : workerStep jndn server reads thread fileSystem = some puts := by
            simp only [workerStep, reading, readable, puts]
          have putting : puts.workers thread = .putSegment request bytes := State.workerAt_self ..
          have answered : workerStep jndn server puts thread fileSystem =
              some ((puts.send (reply server request.name bytes)).workerAt thread .outside) := by
            simp only [workerStep, putting]
          refine System.canReach_cons chosen read (System.canReach_of_step chosen answered ⟨?_, rfl, ?_⟩)
          · simp only [State.workerAt, State.send, puts, reads, Function.update_idem]
          · simp [State.inodes_apply, stored, answer, readable, State.send, puts, reads]

theorem putCount_alone {name : Name} {length : Option Int} (here : before.workers thread = .putCount name length) :
    (system jndn server).CanReach Chosen
      (Answered before thread before.inodes
        (some (reply server name (jndn.blob (decimal ((length.map server.fragments).getD 0)))))) before := by
  have moved : workerStep jndn server before thread fileSystem =
      some ((before.send (reply server name (jndn.blob (decimal ((length.map server.fragments).getD 0))))).workerAt
        thread .outside) := by
    simp only [workerStep, here]
  exact System.canReach_of_step chosen moved ⟨rfl, rfl, rfl⟩

/-- A count is that of what the path names. -/
theorem find_alone {name : Name} {fileName : Text} (here : before.workers thread = .find name fileName) :
    (system jndn server).CanReach Chosen
      (Answered before thread before.inodes
        (some (reply server name (jndn.blob (decimal (((fileSystem.size fileName).map server.fragments).getD 0))))))
      before := by
  cases found : fileSystem.lookup fileName with
  | none =>
      have moved : workerStep jndn server before thread fileSystem =
          some (before.workerAt thread (.putCount name none)) := by
        simp [workerStep, here, found]
      refine System.canReach_cons chosen moved ?_
      rw [← answered_workerAt before thread (.putCount name none), FileSystem.size, found, Option.map_none]
      exact putCount_alone chosen (State.workerAt_self ..)
  | some node =>
      let measures := before.workerAt thread (.measure name fileName)
      have moved : workerStep jndn server before thread fileSystem = some measures := by
        simp [workerStep, here, found, measures]
      have measuring : measures.workers thread = .measure name fileName := State.workerAt_self ..
      have measured : workerStep jndn server measures thread fileSystem =
          some (measures.workerAt thread (.putCount name (fileSystem.size fileName))) := by
        simp only [workerStep, measuring, FileSystem.size, found, Option.map_some, Option.getD_some]
      refine System.canReach_cons chosen moved (System.canReach_cons chosen measured ?_)
      rw [← answered_workerAt before thread (.measure name fileName),
        ← answered_workerAt measures thread (.putCount name (fileSystem.size fileName))]
      exact putCount_alone chosen (State.workerAt_self ..)

end Alone

/-- A thread whose steps no other thread interrupts, in a file system that does
not change meanwhile, does what `doDownload` does in one step. -/
theorem doDownload_alone {name : Name} {pc : Pc} (outside : before.workers thread = .outside)
    (download : dispatch jndn name = .download) (entered : Pc.enter jndn name = some pc) :
    (system jndn server).CanReach (fun label => label = .request thread name ∨ label = .worker thread fileSystem)
      (fun after => after.workers = before.workers ∧
        after.inodes = (server.doDownload jndn fileSystem name before.inodes).2 ∧
        after.sent = before.sent ++ (server.doDownload jndn fileSystem name before.inodes).1.toList) before := by
  have started : step jndn server before (.request thread name) = some (before.workerAt thread pc) := by
    simp only [step, outside, download, entered]
  have idle : Function.update before.workers thread .outside = before.workers := by
    rw [← outside, Function.update_eq_self]
  refine System.canReach_cons (.inl rfl) started ?_
  unfold Pc.enter at entered
  split at entered
  · rename_i first kind file last rest
    obtain rfl := Option.some.inj entered
    refine System.canReach_trans (get_alone (.inr rfl) (State.workerAt_self ..)) fun {middle} prepared => ?_
    rw [asked_workerAt] at prepared
    obtain ⟨workers, inodes, sent⟩ := prepared
    have here : middle.workers thread = _ := (congrFun workers thread).trans (State.workerAt_self ..)
    refine System.canReach_trans (getAgain_alone (.inr rfl) here) fun {after} finished => ?_
    obtain ⟨left, kept, answered⟩ := finished
    refine System.canReach_refl ⟨?_, ?_, ?_⟩
    · rw [left, State.workerAt, workers, State.workerAt, Function.update_idem, idle]
    · rw [doDownload_segment]
      exact kept.trans inodes
    · rw [doDownload_segment, answered, sent, inodes]
  · obtain rfl := Option.some.inj entered
    refine System.canReach_mono (find_alone (.inr rfl) (State.workerAt_self ..)) fun {after} finished => ?_
    rw [answered_workerAt] at finished
    obtain ⟨left, kept, answered⟩ := finished
    refine ⟨left.trans idle, kept, answered.trans ?_⟩
    simp only [doDownload]
    cases fileSystem.size (jndn.toEscapedString _) <;> rfl
  · cases entered

/-! ## Every run -/

omit [DecidableEq Thread] in
theorem sound_initial : Sound (State.initial : State Thread) where
  stored found := by cases found
  held here := by cases here

omit [DecidableEq Thread] in
theorem openedOnce_initial : OpenedOnce (State.initial : State Thread) where
  once := List.nodup_nil
  kept _ member := by cases member

theorem openedOnce_step (sound : Sound before) (opened : OpenedOnce before)
    (moved : step jndn server before label = some after) :
    Sound after ∧ (OpenedOnce after ↔ Alone before label) := by
  cases label with
  | request thread name =>
      simp only [step] at moved
      split at moved
      · rename_i pc outside download entered
        obtain rfl := Option.some.inj moved
        have free : (before.workers thread).Empty := by simp [outside, Pc.Empty]
        have empty := Pc.enter_empty entered
        exact ⟨sound.move empty before.sent, iff_of_true (opened.move free before.sent) trivial⟩
      · cases moved
  | worker thread fileSystem =>
      obtain ⟨pc, sent, empty, free, rfl, quiet⟩ | ⟨request, inode, here, found, rfl⟩ |
        ⟨request, channel, here, rfl⟩ := workerStep_cases moved
      · refine ⟨sound.move empty sent, iff_of_true (opened.move free sent) fun request inode opening found => ?_⟩
        exact absurd found (quiet request inode opening)
      · refine ⟨sound.opening rfl, (opening_iff sound opened here rfl).trans ⟨?_, ?_⟩⟩
        · intro alone other node opening _
          obtain rfl := Pc.openFile.inj (here.symm.trans opening)
          exact alone
        · exact fun alone => alone request inode here found
      · refine ⟨sound.storing here, iff_of_true (opened.storing sound here) fun other inode opening => ?_⟩
        cases here.symm.trans opening

/-- For any requests on any threads, a file is opened once and its channel kept
exactly as long as nobody opens it while another thread has its channel or has
stored it since the first `get`. -/
theorem opened_once_iff (jndn : Jndn) (server : Server) (labels : List (Label Thread)) :
    (system jndn server).Throughout OpenedOnce .initial labels ↔ (system jndn server).Along Alone .initial labels := by
  refine System.throughout_iff_along (fun {before label after} sound opened moved => ?_) sound_initial
    openedOnce_initial labels
  exact openedOnce_step sound opened moved

/-! A file requested on two threads, neither of which has stored its channel
when the other tests for one. -/

def sampleRequest : Name :=
  [.generic (ascii "debit"), .generic (ascii "download"), .generic (ascii "f"), Reference.fromSegment 0]

def sampleFiles : FileSystem where
  lookup path := if path = ['f'] then some (.readable 7) else none
  content _ := [1, 2, 3]

def sampleServer : Server := new .reference ['d', 'a', 't', 'a'] 2 0 .unsigned .unsigned

def sampleSteps (thread : Bool) (count : Nat) : List (Label Bool) := List.replicate count (.worker thread sampleFiles)

def sampleRace : List (Label Bool) :=
  [.request true sampleRequest, .request false sampleRequest] ++ sampleSteps true 3 ++ sampleSteps false 3 ++
    sampleSteps true 4 ++ sampleSteps false 1

def sampleEnd : Option (List Channel × Option Channel × Pc × Pc) :=
  ((system .reference sampleServer).run .initial sampleRace).map fun state : State Bool =>
    (state.opened, state.pendingFiles ['f'], state.workers true, state.workers false)

/-- The first thread has answered and forgotten its channel when the second
puts its own in its place. -/
theorem first_channel_lost :
    sampleEnd = some ([⟨['f'], 7, 0⟩, ⟨['f'], 7, 1⟩], some ⟨['f'], 7, 1⟩, .outside,
        .getAgain ⟨sampleRequest, ['f'], 0⟩) ∧
      ¬(system .reference sampleServer).Throughout OpenedOnce State.initial sampleRace := by
  have ends : sampleEnd = some ([⟨['f'], 7, 0⟩, ⟨['f'], 7, 1⟩], some ⟨['f'], 7, 1⟩, .outside,
      .getAgain ⟨sampleRequest, ['f'], 0⟩) := by decide +kernel
  refine ⟨ends, fun throughout => ?_⟩
  obtain ⟨state, ran, shown⟩ := Option.map_eq_some_iff.mp ends
  have once := (throughout.run ran).once
  rw [(Prod.mk.inj shown).1] at once
  revert once
  decide

end Ndnperf.Java.Channels

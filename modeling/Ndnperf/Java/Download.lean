import Ndnperf.Library.Segmentation
import Ndnperf.Java.ClientProperties
import Ndnperf.Java.Server

namespace Ndnperf.Java.Download

open Ndn Library Library.Word Library.Transition Library.Segmentation

/-! A client downloading from a server. Whatever the server's threads have put
can reach the client at any time and in any order, also more than once. -/

structure State (Thread : Type) where
  client : Client.State
  server : Server.State Thread

inductive Event (Thread : Type) where
  | client (event : Client.Event)
  | server (label : Server.Label Thread)

/-- A Data that reaches the client is one the server has put. An absent content
travels as an empty one. -/
def Delivered (sent : List Data) : Client.Event → Prop
  | .data name content _ => ∃ data ∈ sent, data.name = name ∧ data.content.getD [] = content
  | .timeout _ _ | .main _ | .fileManager => True

instance (sent : List Data) (event : Client.Event) : Decidable (Delivered sent event) :=
  match event with
  | .data _ _ _ => inferInstanceAs (Decidable (∃ data ∈ sent, _))
  | .timeout _ _ | .main _ | .fileManager => inferInstanceAs (Decidable True)

def Sent : Client.Event → Prop
  | .data _ _ throwsAt | .timeout _ throwsAt | .main throwsAt => throwsAt = none
  | .fileManager => True

instance (event : Client.Event) : Decidable (Sent event) :=
  match event with
  | .data _ _ _ | .timeout _ _ | .main _ => inferInstanceAs (Decidable (_ = _))
  | .fileManager => inferInstanceAs (Decidable True)

variable (jndn : Jndn) (server : Server) (client : Client) (target : Client.Target) (inode : Nat) (content : Bytes)
  {Thread : Type} [DecidableEq Thread]

/-- Whatever else the server reads, the file of the download stays as it is. -/
def Unchanged (fileSystem : FileSystem) : Prop :=
  fileSystem.lookup (jndn.toEscapedString target.file) = some (.readable inode) ∧ fileSystem.content inode = content

def Undisturbed : Event Thread → Prop
  | .client event => Sent event
  | .server (.worker _ fileSystem) => Unchanged jndn target inode content fileSystem
  | .server (.onInterest _ _) | .server .offer => True

instance (event : Event Thread) : Decidable (Undisturbed jndn target inode content event) :=
  match event with
  | .client event => inferInstanceAs (Decidable (Sent event))
  | .server (.worker _ _) => inferInstanceAs (Decidable (_ ∧ _))
  | .server (.onInterest _ _) | .server .offer => inferInstanceAs (Decidable True)

def step (state : State Thread) : Event Thread → Option (State Thread)
  | .client event =>
      if Delivered state.server.sent event then
        (client.step jndn state.client event).map fun next => { state with client := next }
      else none
  | .server label => (Server.step jndn server state.server label).map fun next => { state with server := next }

def system : System (State Thread) (Event Thread) :=
  System.guarded
    { start := fun state => state = { client := .initial jndn client, server := .initial }
      step := step jndn server client }
    fun _ => Undisturbed jndn target inode content

variable {jndn server client target inode content} {state before after : State Thread} {fileSystem : FileSystem}
  {pendingFiles : PendingFiles} {name : Name} {index : Nat} {data : Data}

/-! ## The number of segments -/

theorem maxChunkSize_new {data8192 : Text} (full : data8192.length = 8192) {chunk freshness : Int} (lower : 1 ≤ chunk)
    (upper : chunk ≤ 8192) {benchmarkSigner downloadSigner : Signer} :
    (Server.new jndn data8192 chunk freshness benchmarkSigner downloadSigner).maxChunkSize = chunk := by
  simp only [Server.maxChunkSize, Server.new, if_pos (show 0 < chunk ∧ chunk ≤ 8192 by omega), List.length_take, full]
  omega

theorem fragments_of_fits (positive : 1 ≤ server.maxChunkSize) {length : Nat}
    (fits : length + server.maxChunkSize ≤ 2 ^ 63) :
    server.fragments length = segmentCount server.maxChunkSize.toNat length ∧ server.fragments length < 2 ^ 63 := by
  generalize chunkEq : server.maxChunkSize = chunk at positive fits
  obtain ⟨width, rfl⟩ := Int.eq_ofNat_of_zero_le (show 0 ≤ chunk by omega)
  simp only [Server.fragments, chunkEq]
  have whole : int64 ((length : Int) + width - 1) = ((length + width - 1 : Nat) : Int) := by
    rw [int64_of_bounds (by omega) (by omega)]
    omega
  rw [whole, ← Int.ofNat_tdiv, segmentCount, Int.toNat_natCast]
  refine ⟨rfl, ?_⟩
  have smaller : (length + width - 1) / width ≤ length + width - 1 := Nat.div_le_self _ _
  omega

/-- A count that does not fit a `long` comes out as no segments or fewer. -/
theorem fragments_of_overflow (small : server.maxChunkSize ≤ 8192) {length : Nat} (size : length < 2 ^ 63)
    (overflow : 2 ^ 63 < length + server.maxChunkSize) :
    -2 ^ 63 ≤ server.fragments length ∧ server.fragments length ≤ 0 := by
  generalize chunkEq : server.maxChunkSize = chunk at small overflow
  obtain ⟨width, rfl⟩ := Int.eq_ofNat_of_zero_le (show 0 ≤ chunk by omega)
  simp only [Server.fragments, chunkEq]
  have wrapped : int64 ((length : Int) + width - 1) = -((2 ^ 64 - (length + width - 1) : Nat) : Int) := by
    have natural : (length : Int) + width - 1 = ((length + width - 1 : Nat) : Int) := by omega
    rw [natural, int64_natCast (by omega), if_neg (by omega)]
    omega
  rw [wrapped, Int.neg_tdiv, ← Int.ofNat_tdiv]
  have smaller : (2 ^ 64 - (length + width - 1)) / width ≤ 2 ^ 64 - (length + width - 1) := Nat.div_le_self _ _
  generalize (2 ^ 64 - (length + width - 1)) / width = quotient at smaller ⊢
  omega

theorem fragments_cases (positive : 1 ≤ server.maxChunkSize) (small : server.maxChunkSize ≤ 8192) {length : Nat}
    (size : length < 2 ^ 63) :
    server.fragments length = segmentCount server.maxChunkSize.toNat length ∧ server.fragments length < 2 ^ 63 ∨
      -2 ^ 63 ≤ server.fragments length ∧ server.fragments length ≤ 0 := by
  by_cases fits : length + server.maxChunkSize ≤ 2 ^ 63
  · exact .inl (fragments_of_fits positive fits)
  · exact .inr (fragments_of_overflow small size (by omega))

/-! ## What the server puts -/

/-- The server on an unchanging file: its channel is the file's, and its Data
carry the count and the segments. -/
structure Serving (jndn : Jndn) (server : Server) (target : Client.Target) (inode : Nat) (content : Bytes)
    (state : Server.State Thread) : Prop where
  opened : ∀ other ∈ state.pendingFiles (jndn.toEscapedString target.file), other = inode
  counted : ∀ data ∈ state.sent, data.name = target.name →
    data.content = some (jndn.blob (decimal (server.fragments content.length)))
  cut : ∀ data ∈ state.sent, ∀ index : Nat, (index : Int) < server.fragments content.length →
    data.name = target.segmentName jndn index → data.content = some (segment server.maxChunkSize.toNat index content)

theorem openChannel_opened (unchanged : Unchanged jndn target inode content fileSystem)
    (opened : ∀ other ∈ pendingFiles (jndn.toEscapedString target.file), other = inode) (path : Text) :
    ∀ other ∈ Server.openChannel fileSystem path pendingFiles (jndn.toEscapedString target.file), other = inode := by
  unfold Server.openChannel
  split
  · rcases found : fileSystem.lookup path with _ | ⟨other⟩ | _
    · exact opened
    · by_cases same : jndn.toEscapedString target.file = path
      · rw [← same, unchanged.1, Option.some.injEq, Node.readable.injEq] at found
        simp only [same, Function.update_self, Option.mem_def, Option.some.injEq]
        exact fun _ here => here.symm.trans found.symm
      · simp only [Function.update_of_ne same]
        exact opened
    · exact opened
  · exact opened

theorem openChannel_target (unchanged : Unchanged jndn target inode content fileSystem)
    (opened : ∀ other ∈ pendingFiles (jndn.toEscapedString target.file), other = inode) :
    Server.openChannel fileSystem (jndn.toEscapedString target.file) pendingFiles (jndn.toEscapedString target.file) =
      some inode := by
  unfold Server.openChannel
  split
  · simp only [unchanged.1, Function.update_self]
  · rename_i known
    obtain ⟨other, found⟩ := Option.ne_none_iff_exists'.mp known
    rw [found, opened other found]

theorem doDownload_count (unchanged : Unchanged jndn target inode content fileSystem) :
    server.doDownload jndn fileSystem target.name pendingFiles =
      (some (server.downloadSigner.sign { server.dataModel with
        name := target.name
        content := some (jndn.blob (decimal (server.fragments content.length))) }), pendingFiles) := by
  simp only [Server.doDownload, Client.Target.name, FileSystem.size, unchanged.1, Option.map_some, unchanged.2]

theorem readChannel_offset (positive : 1 ≤ server.maxChunkSize) (bound : index * server.maxChunkSize.toNat < 2 ^ 63) :
    server.readChannel content (int64 (server.maxChunkSize * index)) =
      some (segment server.maxChunkSize.toNat index content) := by
  have offset : server.maxChunkSize * index = ((index * server.maxChunkSize.toNat : Nat) : Int) := by
    rw [Int.natCast_mul, Int.toNat_of_nonneg (by omega), Int.mul_comm]
  rw [offset, int64_of_bounds (by omega) (by omega), Server.readChannel, if_neg (by omega), Int.toNat_natCast]
  rfl

/-- No segment below the count has an offset that overflows. -/
theorem readChannel_segment (positive : 1 ≤ server.maxChunkSize) (small : server.maxChunkSize ≤ 8192)
    (size : content.length < 2 ^ 63) (inside : (index : Int) < server.fragments content.length) :
    server.readChannel content (int64 (server.maxChunkSize * index)) =
      some (segment server.maxChunkSize.toNat index content) := by
  have counted : server.fragments content.length = segmentCount server.maxChunkSize.toNat content.length := by
    rcases fragments_cases positive small size with ⟨counted, _⟩ | ⟨_, none⟩
    · exact counted
    · omega
  have below : index * server.maxChunkSize.toNat < content.length := mul_lt_of_lt_segmentCount (by omega) (by omega)
  exact readChannel_offset positive (by omega)

theorem doDownload_segment (positive : 1 ≤ server.maxChunkSize) (small : server.maxChunkSize ≤ 8192)
    (size : content.length < 2 ^ 63) (unchanged : Unchanged jndn target inode content fileSystem)
    (opened : ∀ other ∈ pendingFiles (jndn.toEscapedString target.file), other = inode)
    (inside : (index : Int) < server.fragments content.length) :
    (server.doDownload jndn fileSystem (target.segmentName jndn index) pendingFiles).1 =
      some (server.downloadSigner.sign { server.dataModel with
        name := target.segmentName jndn index
        content := some (segment server.maxChunkSize.toNat index content) }) := by
  have bound : (index : Int) < 2 ^ 63 := by
    rcases fragments_cases positive small size with ⟨_, upper⟩ | ⟨_, none⟩ <;> omega
  have number := jndn.toSegment_fromSegment index (by omega) (by omega)
  have found : ((Server.openChannel fileSystem (jndn.toEscapedString target.file) pendingFiles
      (jndn.toEscapedString target.file)).bind fun inode => server.readChannel (fileSystem.content inode)
        (int64 (server.maxChunkSize * (jndn.toSegment (jndn.fromSegment index)).getD 0))) =
      some (segment server.maxChunkSize.toNat index content) := by
    rw [openChannel_target unchanged opened, number, Option.bind_some, unchanged.2]
    exact readChannel_segment positive small size inside
  simp only [Server.doDownload, Client.Target.segmentName, Client.Target.name, List.cons_append, List.nil_append, found]

theorem doDownload_opened (unchanged : Unchanged jndn target inode content fileSystem)
    (opened : ∀ other ∈ pendingFiles (jndn.toEscapedString target.file), other = inode) (name : Name) :
    ∀ other ∈ (server.doDownload jndn fileSystem name pendingFiles).2 (jndn.toEscapedString target.file),
      other = inode := by
  unfold Server.doDownload
  split
  · simp only
    split <;> exact openChannel_opened unchanged opened _
  · exact opened
  · exact opened

theorem doDownload_name (answered : (server.doDownload jndn fileSystem name pendingFiles).1 = some data) :
    data.name = name := by
  unfold Server.doDownload at answered
  split at answered
  · simp only at answered
    split at answered
    · rw [← Option.some.inj answered, server.downloadSigner.name]
    · cases answered
  · rw [← Option.some.inj answered, server.downloadSigner.name]
  · cases answered

/-! ## The server's runs -/

/-- A client, a server and a file that meet: names of three components, chunks
of the sizes the server accepts and a length that fits a `long`. -/
structure Meets (jndn : Jndn) (server : Server) (client : Client) (target : Client.Target) (content : Bytes) :
    Prop where
  downloads : Client.Downloads jndn client target
  opening : 1 ≤ client.window
  positive : 1 ≤ server.maxChunkSize
  small : server.maxChunkSize ≤ 8192
  nonempty : 1 ≤ content.length
  size : content.length < 2 ^ 63

theorem dispatch_download (downloads : Client.Downloads jndn client target) (rest : Name) :
    Server.dispatch jndn (target.name ++ rest) = .download := by
  simp [Server.dispatch, Server.selector, Client.Target.name, downloads.selected]

theorem Serving.send {serving : Server.State Thread} (served : Serving jndn server target inode content serving)
    (opened : ∀ other ∈ pendingFiles (jndn.toEscapedString target.file), other = inode) {added : Option Data}
    (counted : ∀ data ∈ added, data.name = target.name →
      data.content = some (jndn.blob (decimal (server.fragments content.length))))
    (cut : ∀ data ∈ added, ∀ index : Nat, (index : Int) < server.fragments content.length →
      data.name = target.segmentName jndn index → data.content = some (segment server.maxChunkSize.toNat index content))
    (thread : Thread) (pc : Server.WorkerPc) :
    Serving jndn server target inode content (({ serving with pendingFiles }.send added).workerAt thread pc) where
  opened := opened
  counted data sent := by
    rcases List.mem_append.mp sent with earlier | latest
    · exact served.counted data earlier
    · exact counted data (Option.mem_toList.mp latest)
  cut data sent := by
    rcases List.mem_append.mp sent with earlier | latest
    · exact served.cut data earlier
    · exact cut data (Option.mem_toList.mp latest)

theorem doBenchmark_name (name : Name) : (server.doBenchmark jndn name).name = name :=
  server.benchmarkSigner.name _

theorem Serving.worker {serving next : Server.State Thread} (meets : Meets jndn server client target content)
    (served : Serving jndn server target inode content serving)
    (unchanged : Unchanged jndn target inode content fileSystem) {thread : Thread}
    (moved : Server.workerStep jndn server serving thread fileSystem = some next) :
    Serving jndn server target inode content next := by
  unfold Server.workerStep at moved
  split at moved
  · split at moved
    · exact Option.some.inj moved ▸ { served with }
    · cases moved
  · split at moved <;> exact Option.some.inj moved ▸ { served with }
  · exact Option.some.inj moved ▸ { served with }
  · rename_i name here
    split at moved
    · rename_i handler
      -- A benchmark reply has neither the name of the count nor that of a segment.
      have unasked : ∀ rest : Name, name ≠ target.name ++ rest := by
        intro rest same
        subst same
        rw [dispatch_download meets.downloads] at handler
        cases handler
      refine Option.some.inj moved ▸ served.send served.opened ?_ ?_ thread .take
      · intro _ held named
        cases held
        rw [doBenchmark_name] at named
        exact (unasked [] (by simpa using named)).elim
      · intro _ held index _ named
        cases held
        rw [doBenchmark_name] at named
        exact (unasked [jndn.fromSegment index] named).elim
    · rcases answered : server.doDownload jndn fileSystem name serving.pendingFiles with ⟨added, pendingFiles⟩
      rw [answered] at moved
      have named : ∀ data ∈ added, data.name = name := fun data put =>
        doDownload_name ((congrArg Prod.fst answered).trans put)
      have opened : ∀ other ∈ (server.doDownload jndn fileSystem name serving.pendingFiles).2
          (jndn.toEscapedString target.file), other = inode := doDownload_opened unchanged served.opened name
      rw [answered] at opened
      refine Option.some.inj moved ▸ served.send opened ?_ ?_ thread .take
      · intro data put asked
        obtain rfl : name = target.name := (named data put).symm.trans asked
        rw [doDownload_count unchanged, Prod.mk.injEq] at answered
        obtain rfl := Option.some.inj (answered.1.trans put)
        exact server.downloadSigner.content _
      · intro data put index inside asked
        obtain rfl : name = target.segmentName jndn index := (named data put).symm.trans asked
        have segment := doDownload_segment meets.positive meets.small meets.size unchanged served.opened inside
        rw [answered] at segment
        obtain rfl := Option.some.inj (segment.symm.trans put)
        exact server.downloadSigner.content _
    · exact Option.some.inj moved ▸ { served with }

omit [DecidableEq Thread] in
theorem serving_initial : Serving jndn server target inode content (.initial : Server.State Thread) where
  opened := by simp [Server.State.initial]
  counted := by simp [Server.State.initial]
  cut := by simp [Server.State.initial]

theorem Serving.step {serving next : Server.State Thread} (meets : Meets jndn server client target content)
    (served : Serving jndn server target inode content serving) {label : Server.Label Thread}
    (undisturbed : Undisturbed jndn target inode content (.server label))
    (moved : Server.step jndn server serving label = some next) : Serving jndn server target inode content next := by
  cases label with
  | onInterest name time =>
      simp only [Server.step] at moved
      split at moved
      · exact Option.some.inj moved ▸ { served with }
      · cases moved
  | offer =>
      simp only [Server.step] at moved
      split at moved
      · exact Option.some.inj moved ▸ { served with }
      · cases moved
  | worker thread fileSystem => exact served.worker meets undisturbed moved

end Ndnperf.Java.Download

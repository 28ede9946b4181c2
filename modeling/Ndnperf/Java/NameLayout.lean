import Ndnperf.Java.SendFailures
import Ndnperf.Java.Server
import Ndnperf.Ndn.Uri

namespace Ndnperf.Java

open Ndn Library.Word Library.Transition List

/-- What an Interest asks for. -/
inductive Meaning where
  | benchmark
  | count (file : Text)
  | segment (file : Text) (index : Int)
deriving DecidableEq, Repr

variable {jndn : Jndn} {server : Server} {client : Client} {name : Name} {meaning : Meaning}

/-! ## What the server makes of a name -/

namespace Server

/-- The handler, with the file and the segment it takes from the name. -/
def handles (jndn : Jndn) (name : Name) : Option Meaning :=
  match dispatch jndn name with
  | .benchmark => some .benchmark
  | .download =>
      match name with
      | _ :: _ :: file :: last :: _ => some (.segment (jndn.toEscapedString file) ((jndn.toSegment last).getD 0))
      | [_, _, file] => some (.count (jndn.toEscapedString file))
      | _ => none
  | .ignored => none

/-- The Data put for a name, and `pending_files` afterwards. -/
def serve (jndn : Jndn) (server : Server) (fileSystem : FileSystem) (name : Name) (pendingFiles : PendingFiles) :
    Meaning → Option Data × PendingFiles
  | .benchmark => (some (server.doBenchmark jndn name), pendingFiles)
  | .count file =>
      let fragment := ((fileSystem.size file).map server.fragments).getD 0
      (some (server.downloadSigner.sign { server.dataModel with name, content := some (jndn.blob (decimal fragment)) }),
        pendingFiles)
  | .segment file index =>
      let opened := openChannel fileSystem file pendingFiles
      let read := (opened file).bind fun inode =>
        server.readChannel (fileSystem.content inode) (int64 (server.maxChunkSize * index))
      (read.map fun bytes => server.downloadSigner.sign { server.dataModel with name, content := some bytes }, opened)

variable {Thread : Type} [DecidableEq Thread] {state : State Thread} {thread : Thread} {fileSystem : FileSystem}

/-- A thread answers a name according to what it means, and drops one that means nothing. -/
theorem workerStep_handles (here : state.workers thread = .handle name) :
    workerStep jndn server state thread fileSystem =
      match handles jndn name with
      | some meaning =>
          let (data, pendingFiles) := server.serve jndn fileSystem name state.pendingFiles meaning
          some (({ state with pendingFiles }.send data).workerAt thread .take)
      | none => some (state.workerAt thread .take) := by
  simp only [workerStep, here, handles]
  cases dispatch jndn name with
  | benchmark => rfl
  | ignored => rfl
  | download =>
      rcases name with _ | ⟨first, _ | ⟨second, _ | ⟨file, _ | ⟨last, rest⟩⟩⟩⟩
      · simp [doDownload, State.send]
      · simp [doDownload, State.send]
      · simp [doDownload, State.send]
      · simp only [doDownload, serve]
        cases fileSystem.size (jndn.toEscapedString file) <;> rfl
      · simp only [doDownload, serve]
        cases (openChannel fileSystem (jndn.toEscapedString file) state.pendingFiles (jndn.toEscapedString file)).bind
            fun inode => server.readChannel (fileSystem.content inode)
              (int64 (server.maxChunkSize * (jndn.toSegment last).getD 0)) <;> rfl

end Server

/-! ## What the client makes of the name of a Data -/

namespace Client

def countName (jndn : Jndn) (client : Client) (file : Text) : Name :=
  jndn.nameOfUri (client.namePrefix ++ "/download/".toList ++ file)

def classifies (jndn : Jndn) (name : Name) : Option Meaning :=
  match name[1]?.map jndn.toEscapedString with
  | some selector =>
      if selector = "benchmark".toList then some .benchmark
      else if selector = "download".toList then
        match name with
        | _ :: _ :: file :: last :: _ => (jndn.toSegment last).map (.segment (jndn.toEscapedString file))
        | [_, _, file] => some (.count (jndn.toEscapedString file))
        | _ => none
      else none
  | none => none

/-- What `onData` does with a Data, once its name is known and its retries are
removed. The file of a segment is the one that the count has opened. -/
def accept (jndn : Jndn) (client : Client) (name : Name) (content : Bytes) (throwsAt : Option Failure) (state : State) :
    Meaning → State
  | .benchmark => client.nextBenchmarkInterest jndn throwsAt state
  | .count file =>
      match parseLong (jndn.blobText content) with
      | some max =>
          if max ≤ 0 then { state with max, cont := false }
          else
            let limit := (min state.next max).toNat
            expressLoop jndn (name.take 3) limit throwsAt
              { state with max, pendingFile := some (.new (client.localFile file) max) }
      | none => state
  | .segment _ index =>
      match state.pendingFile with
      | some file => { state with
          main := .release name
          pendingFile := some (file.put index content)
          received := state.received ++ [(index, content)] }
      | none => state

/-- `onData` accepts a Data according to what its name means. -/
theorem onData_classifies {state : State} (known : jndn.toUri name ∈ state.pendingInterests) (content : Bytes)
    (throwsAt : Option Failure) :
    client.onData jndn name content throwsAt state =
      let removed := { state with retryTable := Function.update state.retryTable (jndn.toUri name) none }
      match classifies jndn name with
      | some meaning => client.accept jndn name content throwsAt removed meaning
      | none => removed := by
  simp only [onData, known, if_true, classifies]
  cases name[1]?.map jndn.toEscapedString with
  | none => rfl
  | some selector =>
      by_cases benchmark : selector = "benchmark".toList
      · simp only [if_pos benchmark]
        rfl
      · by_cases download : selector = "download".toList
        · simp only [if_neg benchmark, if_pos download]
          rcases name with _ | ⟨first, _ | ⟨second, _ | ⟨file, _ | ⟨last, rest⟩⟩⟩⟩
          · rfl
          · rfl
          · rfl
          · rfl
          · simp only [nextDownloadInterest]
            cases segment : jndn.toSegment last with
            | none => rfl
            | some index =>
                simp only [Option.map_some, accept]
                cases state.pendingFile <;> rfl
        · simp only [if_neg benchmark, if_neg download]

end Client

/-! ## What the client means by a name -/

/-- How names come about: in `nextBenchmarkInterest` and `Main`, and in
`nextDownloadInterest` from the name of the count. -/
inductive Meant (jndn : Jndn) (client : Client) : Name → Meaning → Prop where
  | benchmark (number : Int) : Meant jndn client (Client.benchmarkName jndn client number) .benchmark
  | count (file : Text) (chosen : client.fileName = some file) :
      Meant jndn client (Client.countName jndn client file) (.count file)
  | segment (file : Text) (chosen : client.fileName = some file) (index : Nat) (small : (index : Int) < 2 ^ 63) :
      Meant jndn client ((Client.countName jndn client file).take 3 ++ [jndn.fromSegment index]) (.segment file index)

/-- Each Interest that a run of the client sends or has still to send is handled by the
server, and its Data by the client, as it was meant. -/
def Agrees (jndn : Jndn) (client : Client) : Prop :=
  ∀ state, (client.system jndn).Reachable state → ∀ name ∈ state.iQueue ++ state.face,
    (∃ meaning, Meant jndn client name meaning) ∧ ∀ meaning, Meant jndn client name meaning →
      Server.handles jndn name = some meaning ∧ Client.classifies jndn name = some meaning

/-! ## URIs -/

/-- How a name is read from a URI: the texts between the slashes are unescaped
by `component`, which has nothing for empty and dotted ones. A URI without a
component so far may take the next text for an authority. -/
structure Uris (jndn : Jndn) (component : Text → Option Component) : Prop where
  joined : ∀ front text, '/' ∉ text → front.getLast? ≠ some '/' ∨ jndn.nameOfUri front ≠ [] →
    jndn.nameOfUri (front ++ '/' :: text) = jndn.nameOfUri front ++ (component text).toList
  rooted : ∀ front text, '/' ∉ text → jndn.nameOfUri front = [] →
    jndn.nameOfUri (front ++ '/' :: text) = (component text).toList ∨ jndn.nameOfUri (front ++ '/' :: text) = []
  plain : ∀ text ≠ [], text.all Char.isAlphanum →
    ∃ made, component text = some made ∧ jndn.toEscapedString made = text
  unslashed : ∀ made, '/' ∉ jndn.toEscapedString made

/-- The prefix and the file name that both programs take apart the same way. -/
def Layout (jndn : Jndn) (component : Text → Option Component) (client : Client) : Prop :=
  match client.fileName with
  | none => client.window ≤ 0 ∨ (jndn.nameOfUri client.namePrefix).length = 1 ∨
      (jndn.nameOfUri client.namePrefix)[1]?.map jndn.toEscapedString = some "benchmark".toList
  | some file => (jndn.nameOfUri client.namePrefix).length = 1 ∧ '/' ∉ file ∧
      ∃ made, component file = some made ∧ jndn.toEscapedString made = file

section Uris

variable {component : Text → Option Component}

/-- The prefix, a word and a last text. -/
theorem Uris.addressed (uris : Uris jndn component) (front word : Text) {text : Text} (whole : '/' ∉ text)
    (named : word ≠ []) (alphanumeric : word.all Char.isAlphanum) :
    ∃ made, component word = some made ∧ jndn.toEscapedString made = word ∧
      (jndn.nameOfUri front ≠ [] → jndn.nameOfUri (front ++ '/' :: word ++ '/' :: text) =
        jndn.nameOfUri front ++ made :: (component text).toList) ∧
      (jndn.nameOfUri front = [] →
        jndn.nameOfUri (front ++ '/' :: word ++ '/' :: text) = made :: (component text).toList ∨
        jndn.nameOfUri (front ++ '/' :: word ++ '/' :: text) = (component text).toList) := by
  obtain ⟨made, read, same⟩ := uris.plain word named alphanumeric
  have slashless : '/' ∉ word := fun member => absurd (all_eq_true.mp alphanumeric _ member) (by decide)
  have final : (front ++ '/' :: word).getLast? ≠ some '/' := by
    obtain ⟨first, rest, rfl⟩ := exists_cons_of_ne_nil named
    rw [getLast?_append_cons, getLast?_cons_cons]
    exact fun same => slashless (mem_of_getLast? same)
  have last := uris.joined (front ++ '/' :: word) text whole (.inl final)
  refine ⟨made, read, same, fun rooted => ?_, fun empty => ?_⟩
  · rw [last, uris.joined front word slashless (.inr rooted), read]
    simp
  · obtain short | none := uris.rooted front word slashless empty
    · rw [last, short, read]
      exact .inl rfl
    · rw [last, none]
      exact .inr rfl

theorem decimal_slashless (number : Int) : '/' ∉ decimal number := by
  have digits : ∀ magnitude, '/' ∉ Nat.toDigits 10 magnitude := by
    intro magnitude member
    exact absurd (isDigit_of_mem member) (by decide)
  unfold decimal
  split
  · simp [digits]
  · exact digits _

theorem Uris.benchmarkName (uris : Uris jndn component) (client : Client) (number : Int) :
    ∃ made, jndn.toEscapedString made = "benchmark".toList ∧
      (jndn.nameOfUri client.namePrefix ≠ [] → Client.benchmarkName jndn client number =
        jndn.nameOfUri client.namePrefix ++ made :: (component (decimal number)).toList) ∧
      (jndn.nameOfUri client.namePrefix = [] →
        Client.benchmarkName jndn client number = made :: (component (decimal number)).toList ∨
        Client.benchmarkName jndn client number = (component (decimal number)).toList) := by
  obtain ⟨made, _, same, rooted, empty⟩ := uris.addressed client.namePrefix "benchmark".toList
    (decimal_slashless number) (by decide) (by decide)
  have uri : client.namePrefix ++ '/' :: "benchmark".toList ++ '/' :: decimal number =
      client.namePrefix ++ "/benchmark/".toList ++ decimal number := by simp
  rw [uri] at rooted empty
  exact ⟨made, same, rooted, empty⟩

theorem Uris.countName (uris : Uris jndn component) (client : Client) {file : Text} (whole : '/' ∉ file) :
    ∃ made, component "download".toList = some made ∧ jndn.toEscapedString made = "download".toList ∧
      (jndn.nameOfUri client.namePrefix ≠ [] → Client.countName jndn client file =
        jndn.nameOfUri client.namePrefix ++ made :: (component file).toList) ∧
      (jndn.nameOfUri client.namePrefix = [] →
        Client.countName jndn client file = made :: (component file).toList ∨
        Client.countName jndn client file = (component file).toList) := by
  have uri : client.namePrefix ++ '/' :: "download".toList ++ '/' :: file =
      client.namePrefix ++ "/download/".toList ++ file := by simp
  unfold Client.countName
  rw [← uri]
  exact uris.addressed client.namePrefix "download".toList whole (by decide) (by decide)

/-! What the server makes of a name, read back -/

theorem selected_iff {word : Text} (named : word ≠ []) :
    Server.selector jndn name = word ↔ name[1]?.map jndn.toEscapedString = some word := by
  unfold Server.selector
  cases name[1]? with
  | none => exact iff_of_false (Ne.symm named) (Option.some_ne_none word).symm
  | some second => exact Option.some_inj.symm

theorem dispatch_benchmark_iff :
    Server.dispatch jndn name = .benchmark ↔ name[1]?.map jndn.toEscapedString = some "benchmark".toList := by
  rw [← selected_iff (by decide), Server.dispatch]
  split
  · rename_i selected
    exact iff_of_true rfl selected
  · rename_i other
    refine iff_of_false ?_ other
    split <;> simp

theorem dispatch_download (selected : name[1]?.map jndn.toEscapedString = some "download".toList) :
    Server.dispatch jndn name = .download := by
  have download := (selected_iff (by decide)).mpr selected
  have different : "download".toList ≠ "benchmark".toList := by decide
  rw [Server.dispatch, if_neg (download ▸ different), if_pos download]

theorem handles_benchmark_iff :
    Server.handles jndn name = some .benchmark ↔ name[1]?.map jndn.toEscapedString = some "benchmark".toList := by
  rw [← dispatch_benchmark_iff]
  unfold Server.handles
  cases Server.dispatch jndn name with
  | benchmark => exact iff_of_true rfl rfl
  | ignored => exact iff_of_false (by simp) (by simp)
  | download =>
      refine iff_of_false (fun handled => ?_) (by simp)
      simp only at handled
      split at handled <;> cases handled

theorem handles_count {file : Text} (handled : Server.handles jndn name = some (.count file)) :
    ∃ first second third, name = [first, second, third] ∧ jndn.toEscapedString third = file := by
  unfold Server.handles at handled
  split at handled
  · cases handled
  · split at handled
    · cases handled
    · rename_i first second third _
      exact ⟨first, second, third, rfl, by simpa using handled⟩
    · cases handled
  · cases handled

theorem classifies_benchmark (selected : name[1]?.map jndn.toEscapedString = some "benchmark".toList) :
    Client.classifies jndn name = some .benchmark := by
  simp [Client.classifies, selected]

/-! ## Where the layouts agree -/

/-- An Interest that the client starts with. -/
theorem Agrees.first (agrees : Agrees jndn client) (asked : name ∈ client.interests jndn)
    (meant : Meant jndn client name meaning) : Server.handles jndn name = some meaning :=
  ((agrees _ (.start rfl) name (mem_append_left _ asked)).2 meaning meant).1

theorem benchmark_layout (uris : Uris jndn component) (agrees : Agrees jndn client) (chosen : client.fileName = none)
    (opened : 0 < client.window) : (jndn.nameOfUri client.namePrefix).length = 1 ∨
      (jndn.nameOfUri client.namePrefix)[1]?.map jndn.toEscapedString = some "benchmark".toList := by
  have asked : Client.benchmarkName jndn client 1 ∈ client.interests jndn := by
    simp only [Client.interests, chosen]
    refine mem_map.mpr ⟨1, mem_flatMap.mpr ⟨1, mem_range'_1.mpr ⟨le_rfl, ?_⟩, mem_singleton_self _⟩, rfl⟩
    have some : 0 < client.window.toNat := by omega
    omega
  have selected := handles_benchmark_iff.mp (agrees.first asked (.benchmark 1))
  obtain ⟨made, _, rooted, empty⟩ := uris.benchmarkName client 1
  obtain ⟨number, read, digit⟩ := uris.plain (decimal 1) (by decide) (by decide)
  rw [read] at rooted empty
  rcases parsed : jndn.nameOfUri client.namePrefix with _ | ⟨only, _ | ⟨second, rest⟩⟩
  · -- The number would have to be the word.
    obtain named | named := empty parsed
    · rw [named] at selected
      have same : jndn.toEscapedString number = "benchmark".toList := Option.some.inj selected
      exact absurd (digit.symm.trans same) (by decide)
    · rw [named] at selected
      cases selected
  · exact .inl rfl
  · rw [rooted (by simp [parsed]), parsed] at selected
    exact .inr selected

theorem download_layout (uris : Uris jndn component) (agrees : Agrees jndn client) {file : Text}
    (chosen : client.fileName = some file) : (jndn.nameOfUri client.namePrefix).length = 1 ∧ '/' ∉ file ∧
      ∃ made, component file = some made ∧ jndn.toEscapedString made = file := by
  have asked : Client.countName jndn client file ∈ client.interests jndn := by
    simp only [Client.interests, chosen]
    exact mem_singleton_self _
  obtain ⟨first, second, third, named, same⟩ := handles_count (agrees.first asked (.count file chosen))
  have whole : '/' ∉ file := same ▸ uris.unslashed third
  obtain ⟨made, read, word, rooted, empty⟩ := uris.countName client whole
  have short : (component file).toList.length ≤ 1 := by cases component file <;> simp
  have sizes := congrArg length named
  simp only [length_cons, length_nil] at sizes
  rcases parsed : jndn.nameOfUri client.namePrefix with _ | ⟨only, _ | ⟨other, rest⟩⟩
  · obtain few | few := empty parsed
    · rw [few, length_cons] at sizes
      omega
    · rw [few] at sizes
      omega
  · rw [rooted (by simp [parsed]), parsed] at named sizes
    refine ⟨rfl, whole, third, ?_, same⟩
    cases found : component file with
    | none => simp [found] at sizes
    | some last =>
        simp only [found, Option.toList_some, cons_append, nil_append, cons.injEq, and_true] at named
        rw [named.2.2]
  · rw [rooted (by simp [parsed]), parsed] at named sizes
    simp only [length_append, length_cons] at sizes
    have noRest : rest = [] := eq_nil_of_length_eq_zero (by omega)
    have unread : (component file).toList = [] := eq_nil_of_length_eq_zero (by omega)
    rw [noRest, unread] at named
    -- The third component is the word, so the file would have to be called the same.
    obtain ⟨_, _, rfl⟩ : only = first ∧ other = second ∧ made = third := by simpa using named
    rw [← same, word, read] at unread
    cases unread

theorem layout_of_agrees (uris : Uris jndn component) (agrees : Agrees jndn client) : Layout jndn component client := by
  unfold Layout
  cases chosen : client.fileName with
  | none =>
      by_cases closed : client.window ≤ 0
      · exact .inl closed
      · exact .inr (benchmark_layout uris agrees chosen (by omega))
  | some file => exact download_layout uris agrees chosen

/-- One component, or one that makes a benchmark of everything. -/
theorem Uris.selected (uris : Uris jndn component)
    (fits : (jndn.nameOfUri client.namePrefix).length = 1 ∨
      (jndn.nameOfUri client.namePrefix)[1]?.map jndn.toEscapedString = some "benchmark".toList) (number : Int) :
    (Client.benchmarkName jndn client number)[1]?.map jndn.toEscapedString = some "benchmark".toList := by
  obtain ⟨made, same, rooted, _⟩ := uris.benchmarkName client number
  rcases parsed : jndn.nameOfUri client.namePrefix with _ | ⟨only, _ | ⟨second, rest⟩⟩
  · simp [parsed] at fits
  · rw [rooted (by simp [parsed]), parsed]
    exact congrArg some same
  · rw [parsed] at fits
    rw [rooted (by simp [parsed]), parsed]
    exact fits.resolve_left (by simp)

theorem Uris.downloads (uris : Uris jndn component) {file : Text} (chosen : client.fileName = some file)
    (single : (jndn.nameOfUri client.namePrefix).length = 1) (whole : '/' ∉ file) {made : Component}
    (read : component file = some made) :
    ∃ target : Client.Target, target.name = Client.countName jndn client file ∧ target.file = made ∧
      Client.Downloads jndn client target := by
  obtain ⟨word, _, same, rooted, _⟩ := uris.countName client whole
  obtain ⟨first, parsed⟩ := length_eq_one_iff.mp single
  have named := rooted (by simp [parsed])
  rw [parsed, read] at named
  refine ⟨⟨first, word, made⟩, named.symm, rfl, ?_, same⟩
  simp only [Client.interests, chosen]
  exact congrArg (fun name => [name]) named

/-- A client without window sends nothing. -/
theorem closed_inductive (chosen : client.fileName = none) (closed : client.window ≤ 0) :
    (client.system jndn).Inductive fun state =>
      state.iQueue = [] ∧ state.face = [] ∧ state.main.handled = none where
  start := by
    intro state start
    subst start
    have none : client.window.toNat = 0 := by omega
    refine ⟨?_, rfl, rfl⟩
    simp [Client.State.initial, Client.interests, chosen, none]
  step := by
    intro before event after empty moved
    obtain ⟨queue, face, idle⟩ := empty
    change client.step jndn before event = some after at moved
    cases event with
    | data =>
        obtain ⟨_, _, member, _⟩ := Client.step_data.mp moved
        simp [face] at member
    | timeout =>
        obtain ⟨_, _, member, _⟩ := Client.step_timeout.mp moved
        simp [face] at member
    | fileManager =>
        obtain ⟨fileManager, pendingFile, filePass, cont, written, rfl⟩ :=
          Client.fileManagerStep_frame (Client.step_fileManager.mp moved).2
        exact ⟨queue, face, idle⟩
    | main throwsAt =>
        obtain ⟨name, rest, _, _, queued, _⟩ | ⟨name, here, _⟩ | ⟨_, main, filePass, _, handled, rfl⟩ :=
          @Client.mainStep_cases jndn client before after throwsAt (Client.step_main.mp moved).2
        · simp [queue] at queued
        · rw [here] at idle
          cases idle
        · exact ⟨queue, face, handled.elim id fun same => same.trans idle⟩

/-- Every name a benchmark is about is one of its own. -/
theorem agrees_benchmark (chosen : client.fileName = none)
    (selected : ∀ number, (Client.benchmarkName jndn client number)[1]?.map jndn.toEscapedString =
      some "benchmark".toList) : Agrees jndn client := by
  intro state reached name member
  have benchmarking := (Client.benchmarking_inductive ⟨chosen, selected⟩).reachable reached
  refine ⟨?_, fun meaning meant => ?_⟩
  · obtain ⟨number, rfl⟩ := benchmarking.named name (perm_append_comm.subset member)
    exact ⟨_, .benchmark number⟩
  · cases meant with
    | benchmark number =>
        exact ⟨handles_benchmark_iff.mpr (selected number), classifies_benchmark (selected number)⟩
    | count file download => cases chosen.symm.trans download
    | segment file download => cases chosen.symm.trans download

section Target

variable {target : Client.Target} (selected : jndn.toEscapedString target.selector = "download".toList)
include selected

theorem count_agrees :
    Server.handles jndn target.name = some (.count (jndn.toEscapedString target.file)) ∧
      Client.classifies jndn target.name = some (.count (jndn.toEscapedString target.file)) := by
  have different : "download".toList ≠ "benchmark".toList := by decide
  have dispatched : Server.dispatch jndn target.name = .download := dispatch_download (congrArg some selected)
  constructor
  · simp only [Server.handles, dispatched]
    rfl
  · simp only [Client.classifies, Client.Target.name, getElem?_cons_succ, getElem?_cons_zero, Option.map_some, selected,
      if_neg different, if_true]

theorem segment_agrees {index : Nat} (small : (index : Int) < 2 ^ 63) :
    Server.handles jndn (target.segmentName jndn index) = some (.segment (jndn.toEscapedString target.file) index) ∧
      Client.classifies jndn (target.segmentName jndn index) =
        some (.segment (jndn.toEscapedString target.file) index) := by
  have different : "download".toList ≠ "benchmark".toList := by decide
  have dispatched : Server.dispatch jndn (target.segmentName jndn index) = .download :=
    dispatch_download (congrArg some selected)
  have number := jndn.toSegment_fromSegment index (Int.natCast_nonneg index) small
  constructor
  · simp only [Server.handles, dispatched]
    simp only [Client.Target.segmentName, Client.Target.name, cons_append, nil_append, number, Option.getD_some]
  · simp only [Client.classifies, Client.Target.segmentName, Client.Target.name, cons_append, nil_append,
      getElem?_cons_succ, getElem?_cons_zero, Option.map_some, selected, if_neg different, if_true, number]

end Target

theorem agrees_download {target : Client.Target} {file : Text} (chosen : client.fileName = some file)
    (named : target.name = Client.countName jndn client file) (same : jndn.toEscapedString target.file = file)
    (downloads : Client.Downloads jndn client target)
    (selected : ∀ number, (Client.benchmarkName jndn client number)[1]?.map jndn.toEscapedString =
      some "benchmark".toList) : Agrees jndn client := by
  have different : "download".toList ≠ "benchmark".toList := by decide
  have word : ∀ rest : Name, (target.name ++ rest)[1]?.map jndn.toEscapedString = some "download".toList :=
    fun _ => congrArg some downloads.selected
  have fetches : Client.Fetches jndn client target.name := by
    refine ⟨downloads.asked, ?_⟩
    have selector := word []
    rw [append_nil] at selector
    rw [selector]
    exact fun same => different (Option.some.inj same)
  intro state reached name member
  have loading := (Client.loading_inductive fetches).reachable reached
  refine ⟨?_, fun meaning meant => ?_⟩
  · obtain uncounted | ⟨other, alike, _, counted⟩ := loading
    · have count : name = target.name := mem_singleton.mp (uncounted.single.subset (perm_append_comm.subset member))
      have meant : Meant jndn client (Client.countName jndn client file) (.count file) := .count file chosen
      rw [← named, ← count] at meant
      exact ⟨_, meant⟩
    · rw [counted.queue, nil_append] at member
      obtain ⟨index, below, rfl, _⟩ := counted.inFlight.segment name member
      have small := counted.inFlight.small
      have meant : Meant jndn client ((Client.countName jndn client file).take 3 ++ [jndn.fromSegment index])
          (.segment file index) := .segment file chosen index (by omega)
      rw [← named, ← alike] at meant
      exact ⟨_, meant⟩
  · cases meant with
    | benchmark number =>
        exact ⟨handles_benchmark_iff.mpr (selected number), classifies_benchmark (selected number)⟩
    | count other asked =>
        obtain rfl := Option.some.inj (chosen.symm.trans asked)
        rw [← named]
        exact same ▸ count_agrees downloads.selected
    | segment other asked index small =>
        obtain rfl := Option.some.inj (chosen.symm.trans asked)
        rw [← named]
        exact same ▸ segment_agrees downloads.selected small

/-- The client and the server agree on the names of every Interest if and only if
the prefix has one component (for a benchmark also if its second one is the
word) and the file name is one component that is written as it is escaped. -/
theorem layouts_agree_iff (uris : Uris jndn component) (client : Client) :
    Agrees jndn client ↔ Layout jndn component client := by
  refine ⟨layout_of_agrees uris, fun layout => ?_⟩
  unfold Layout at layout
  cases chosen : client.fileName with
  | none =>
      rw [chosen] at layout
      obtain closed | fits := layout
      · intro state reached name member
        obtain ⟨queue, face, _⟩ := (closed_inductive chosen closed).reachable reached
        simp [queue, face] at member
      · exact agrees_benchmark chosen (uris.selected fits)
  | some file =>
      rw [chosen] at layout
      obtain ⟨single, whole, made, read, same⟩ := layout
      obtain ⟨target, named, rfl, downloads⟩ := uris.downloads chosen single whole read
      exact agrees_download chosen named same downloads (uris.selected (.inl single))

end Uris

/-! ## A library that escapes -/

namespace Reference

def escape (component : Component) : Text := ofLatin (Library.Percent.encode unreserved component.value)

/-- `fromEscapedString`, for texts without escapes. -/
def component (text : Text) : Option Component :=
  if text.all (· = '.') ∧ text.length ≤ 2 then none else some (.generic (latin text))

theorem splitOn_append (front : Text) {text : Text} (whole : '/' ∉ text) :
    (front ++ '/' :: text).splitOn '/' = front.splitOn '/' ++ [text] := by
  rw [splitOn_append_cons_self, splitOn_eq_singleton whole]

theorem escape_alphanumeric {text : Text} (alphanumeric : ∀ letter ∈ text, letter.isAlphanum) :
    escape (.generic (latin text)) = text := by
  have small : ∀ letter ∈ text, letter.toNat < 128 := by
    intro letter member
    have alphanumeric := alphanumeric letter member
    change ((decide (letter.val ≥ 65 ∧ letter.val ≤ 90) || (letter.val ≥ 97 && letter.val ≤ 122)) ||
      (letter.val ≥ 48 && letter.val ≤ 57)) = true at alphanumeric
    simp only [Bool.or_eq_true, Bool.and_eq_true, decide_eq_true_eq, UInt32.le_iff_toNat_le, UInt32.reduceToNat]
      at alphanumeric
    change letter.val.toNat < 128
    omega
  have table : ∀ code : Fin 128, (Char.ofNat code).isAlphanum → unreserved (UInt8.ofNat code) = true := by
    decide +kernel
  have stands : ∀ byte ∈ latin text, unreserved byte = true := by
    intro byte member
    obtain ⟨letter, inside, rfl⟩ := mem_map.mp member
    have found := table ⟨letter.toNat, small letter inside⟩
    simp only [Char.ofNat_toNat] at found
    exact found (alphanumeric letter inside)
  rw [escape, Component.generic, Library.Percent.encode_kept stands, ofLatin_latin text small]

theorem escape_slashless (component : Component) : '/' ∉ escape component := by
  intro member
  have found : slash ∈ latin (escape component) := mem_map_of_mem member
  rw [escape, latin_ofLatin] at found
  exact slash_notMem_encode escapes_unreserved _ found

end Reference

def sampleJndn : Jndn where
  toUri := Reference.toUri
  nameOfUri uri := (uri.splitOn '/').tail.filterMap Reference.component
  toEscapedString := Reference.escape
  fromSegment := Reference.fromSegment
  toSegment := Reference.toSegment
  getBytes := Reference.latin
  ofBytes := Reference.ofLatin
  blob := Reference.latin
  blobText := Reference.ofLatin
  toSegment_fromSegment := Reference.toSegment_fromSegment
  blobText_blob := Reference.ofLatin_latin

theorem uris_sample : Uris sampleJndn Reference.component := by
  have joined : ∀ front text, '/' ∉ text →
      sampleJndn.nameOfUri (front ++ '/' :: text) = sampleJndn.nameOfUri front ++
        (Reference.component text).toList := by
    intro front text whole
    simp only [sampleJndn, Reference.splitOn_append front whole, tail_append_of_ne_nil (splitOn_ne_nil '/' front),
      filterMap_append]
    cases read : Reference.component text with
    | none => simp [read]
    | some made => simp [read]
  refine ⟨fun front text whole _ => joined front text whole, fun front text whole empty => .inl ?_, ?_, ?_⟩
  · rw [joined front text whole, empty, nil_append]
  · intro text nonempty alphanumeric
    have alphanumeric := all_eq_true.mp alphanumeric
    obtain ⟨first, rest, rfl⟩ := exists_cons_of_ne_nil nonempty
    have word : first ≠ '.' := by
      rintro rfl
      exact absurd (alphanumeric '.' mem_cons_self) (by decide)
    refine ⟨.generic (Reference.latin (first :: rest)), by simp [Reference.component, word], ?_⟩
    exact Reference.escape_alphanumeric alphanumeric
  · exact Reference.escape_slashless

/-- The default prefix, with a benchmark and with a download. -/
theorem layouts_agree_sample :
    Agrees sampleJndn Client.sampleBenchmark ∧ Agrees sampleJndn (Client.sampleClient none) := by
  constructor
  · exact (layouts_agree_iff uris_sample _).mpr (.inr (.inl (by decide +kernel)))
  · exact (layouts_agree_iff uris_sample _).mpr ⟨by decide +kernel, by decide, _, rfl, by decide +kernel⟩

def deepPrefix (fileName : Option Text) : Client where
  namePrefix := "/a/b".toList
  window := 1
  fileName
  localFile _ := none

def nestedFile : Client where
  namePrefix := "/debit".toList
  window := 1
  fileName := some "x/y".toList
  localFile _ := none

/-- With a prefix of two components the server drops every Interest, and a file
in a directory is taken for the directory, with its name for a segment number. -/
theorem layouts_disagree :
    ¬Agrees sampleJndn (deepPrefix none) ∧ ¬Agrees sampleJndn (deepPrefix (some "x".toList)) ∧
      ¬Agrees sampleJndn nestedFile ∧
      Server.handles sampleJndn (Client.benchmarkName sampleJndn (deepPrefix none) 1) = none ∧
      Server.handles sampleJndn (Client.countName sampleJndn (deepPrefix (some "x".toList)) "x".toList) = none ∧
      Server.handles sampleJndn (Client.countName sampleJndn nestedFile "x/y".toList) =
        some (.segment "x".toList 0) := by
  have benchmark : Server.handles sampleJndn (Client.benchmarkName sampleJndn (deepPrefix none) 1) = none := by
    decide +kernel
  have download : Server.handles sampleJndn
      (Client.countName sampleJndn (deepPrefix (some "x".toList)) "x".toList) = none := by decide +kernel
  have nested : Server.handles sampleJndn (Client.countName sampleJndn nestedFile "x/y".toList) =
      some (.segment "x".toList 0) := by decide +kernel
  refine ⟨fun agrees => ?_, fun agrees => ?_, fun agrees => ?_, benchmark, download, nested⟩
  · exact absurd (benchmark.symm.trans (agrees.first mem_cons_self (.benchmark 1))) (by simp)
  · exact absurd (download.symm.trans (agrees.first mem_cons_self (.count _ rfl))) (by simp)
  · exact absurd (nested.symm.trans (agrees.first mem_cons_self (.count _ rfl))) (by decide)

end Ndnperf.Java

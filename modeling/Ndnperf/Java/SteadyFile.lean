import Ndnperf.Java.Download
import Ndnperf.Java.NameLayout
import Ndnperf.Java.ServerQueue

namespace Ndnperf.Java.Server

open Ndn Library Library.Word Library.Transition Library.Segmentation

variable {jndn : Jndn} {server : Server} {Thread : Type} [DecidableEq Thread] {state before middle after : State Thread}
  {thread : Thread} {name : Name} {fileSystem : FileSystem} {pendingFiles : PendingFiles} {path : Text}
  {inode source index : Nat} {content : Bytes} {past : List Data} {meaning : Meaning} {labels : List (Label Thread)}

/-! ## What a step reads -/

theorem serve_name {data : Data} (put : data ∈ (server.serve jndn fileSystem name pendingFiles meaning).1) :
    data.name = name := by
  cases meaning with
  | benchmark =>
      obtain rfl := Option.some.inj put
      exact server.benchmarkSigner.name _
  | count file =>
      obtain rfl := Option.some.inj put
      exact server.downloadSigner.name _
  | segment file index =>
      obtain ⟨bytes, _, rfl⟩ := Option.map_eq_some_iff.mp put
      exact server.downloadSigner.name _

/-- A step of a thread leaves the files and the Data alone, or serves a name that means something. -/
theorem workerStep_serves (moved : workerStep jndn server before thread fileSystem = some after) :
    after.pendingFiles = before.pendingFiles ∧ after.sent = before.sent ∨
      ∃ name meaning, handles jndn name = some meaning ∧
        after.pendingFiles = (server.serve jndn fileSystem name before.pendingFiles meaning).2 ∧
        after.sent = before.sent ++ (server.serve jndn fileSystem name before.pendingFiles meaning).1.toList := by
  cases here : before.workers thread with
  | take =>
      simp only [workerStep, here] at moved
      split at moved
      · exact .inl (Option.some.inj moved ▸ ⟨rfl, rfl⟩)
      · cases moved
  | get name =>
      simp only [workerStep, here] at moved
      split at moved <;> exact .inl (Option.some.inj moved ▸ ⟨rfl, rfl⟩)
  | remove name =>
      simp only [workerStep, here] at moved
      exact .inl (Option.some.inj moved ▸ ⟨rfl, rfl⟩)
  | handle name =>
      rw [workerStep_handles here] at moved
      cases meant : handles jndn name with
      | none =>
          simp only [meant] at moved
          exact .inl (Option.some.inj moved ▸ ⟨rfl, rfl⟩)
      | some meaning =>
          simp only [meant] at moved
          exact .inr ⟨name, meaning, meant, Option.some.inj moved ▸ ⟨rfl, rfl⟩⟩

/-! ## The channel that is kept -/

/-- Opening any file keeps the one a path is served from: the file whose channel
is kept, or else the one that the path names. -/
theorem openChannel_source (found : fileSystem.lookup path = some (.readable inode)) (other : Text) :
    (openChannel fileSystem other pendingFiles path).getD inode = (pendingFiles path).getD inode := by
  unfold openChannel
  split
  · rename_i missing
    rcases here : fileSystem.lookup other with _ | ⟨opened⟩ | _
    · rfl
    · by_cases same : path = other
      · subst same
        obtain rfl : inode = opened := by simpa [found] using here
        simp only [Function.update_self, missing, Option.getD_some, Option.getD_none]
      · simp only [Function.update_of_ne same]
    · rfl
  · rfl

theorem openChannel_self (found : fileSystem.lookup path = some (.readable inode)) :
    openChannel fileSystem path pendingFiles path = some ((pendingFiles path).getD inode) := by
  unfold openChannel
  split
  · rename_i missing
    simp only [found, missing, Function.update_self, Option.getD_none]
  · rename_i known
    obtain ⟨cached, kept⟩ := Option.ne_none_iff_exists'.mp known
    rw [kept, Option.getD_some]

/-- The path names the same file all along, and nothing is written to the one that its Data come from. -/
def Steady (path : Text) (inode source : Nat) (content : Bytes) : Label Thread → Prop
  | .worker _ fileSystem => fileSystem.lookup path = some (.readable inode) ∧ fileSystem.content source = content
  | .onInterest _ _ | .offer => True

/-- All that is put for segments of the path since some time comes from one file. -/
structure Streams (jndn : Jndn) (server : Server) (path : Text) (inode source : Nat) (content : Bytes)
    (past : List Data) (state : State Thread) : Prop where
  source : (state.pendingFiles path).getD inode = source
  sent : ∃ more, state.sent = past ++ more ∧ ∀ data ∈ more, ∀ index : Nat, index * server.maxChunkSize.toNat < 2 ^ 63 →
    handles jndn data.name = some (.segment path index) →
    data.content = some (segment server.maxChunkSize.toNat index content)

theorem Streams.worker (streams : Streams jndn server path inode source content past before)
    (positive : 1 ≤ server.maxChunkSize) (found : fileSystem.lookup path = some (.readable inode))
    (kept : fileSystem.content source = content)
    (moved : workerStep jndn server before thread fileSystem = some after) :
    Streams jndn server path inode source content past after := by
  obtain ⟨more, since, cut⟩ := streams.sent
  obtain ⟨files, sent⟩ | ⟨name, meaning, meant, files, sent⟩ := workerStep_serves moved
  · exact ⟨files ▸ streams.source, more, sent.trans since, cut⟩
  · constructor
    · rw [files]
      cases meaning with
      | benchmark | count => exact streams.source
      | segment file => exact (openChannel_source found file).trans streams.source
    · refine ⟨_, (sent.trans (congrArg (· ++ _) since)).trans (List.append_assoc ..), fun data member => ?_⟩
      rcases List.mem_append.mp member with earlier | latest
      · exact cut data earlier
      · intro index bound asked
        have put := Option.mem_toList.mp latest
        rw [serve_name put, meant, Option.some.injEq] at asked
        subst asked
        obtain ⟨bytes, read, rfl⟩ := Option.map_eq_some_iff.mp put
        rw [openChannel_self found, streams.source, Option.bind_some, kept,
          Download.readChannel_offset positive bound] at read
        rw [server.downloadSigner.content, ← read]

theorem Streams.step {label : Label Thread} (streams : Streams jndn server path inode source content past before)
    (positive : 1 ≤ server.maxChunkSize) (steady : Steady path inode source content label)
    (moved : Server.step jndn server before label = some after) :
    Streams jndn server path inode source content past after := by
  cases label with
  | onInterest name time =>
      simp only [Server.step] at moved
      split at moved
      · exact Option.some.inj moved ▸ { streams with }
      · cases moved
  | offer =>
      simp only [Server.step] at moved
      split at moved
      · exact Option.some.inj moved ▸ { streams with }
      · cases moved
  | worker thread fileSystem => exact streams.worker positive steady.1 steady.2 moved

theorem Streams.run (streams : Streams jndn server path inode source content past before)
    (positive : 1 ≤ server.maxChunkSize) (steady : ∀ label ∈ labels, Steady path inode source content label)
    (ran : (system jndn server).run before labels = some after) :
    Streams jndn server path inode source content past after := by
  have along : (system jndn server).Along (fun _ => Steady path inode source content) before labels :=
    System.along_of_forall (fun _ => steady) before
  have keeps : ∀ {before : State Thread} {label after}, Streams jndn server path inode source content past before →
      Steady path inode source content label → (system jndn server).step before label = some after →
      Streams jndn server path inode source content past after :=
    fun streams now moved => streams.step positive now moved
  exact along.keeps keeps streams ran

end Ndnperf.Java.Server

import Ndnperf.Cxx.FilePath
import Ndnperf.Java.Server

namespace Ndnperf

open Ndn Library

/-! What both servers open, whatever names they are asked for. -/

/-! ## The C++ server -/

namespace Cxx

/-- A relative path that does not lead out of the working directory. -/
structure Below (path : Bytes) : Prop where
  relative : path.head? ≠ some slash
  inside : ∀ text ∈ path.splitOn slash, text ≠ ascii ".."

variable {ndn : NdnCxx} {server : Server} {fileSystem other : FileSystem} {name : Name} {path : Bytes}

theorem below_of_entries (entries : ∀ text ∈ path.splitOn slash, Entry text) : Below path := by
  refine ⟨fun rooted => ?_, fun text member => (entries text member).inside⟩
  obtain ⟨rest, rfl⟩ := List.head?_eq_some_iff.mp rooted
  have empty : [] ∈ (slash :: rest).splitOn slash := by
    have split := List.splitOn_append_cons_self (a := slash) [] rest
    simp only [List.nil_append, List.splitOn_nil] at split
    exact split ▸ List.mem_cons_self
  exact (entries [] empty).nonempty rfl

theorem filePath_below (writes : ndn.WritesUris) (name : Name) : Below (server.filePath ndn name) := by
  rw [Server.filePath, writes.drop_nameToUri]
  generalize (name.drop (server.namePrefix.length + 1)).dropLast = inner
  by_cases empty : inner = []
  · rw [empty]
    change Below []
    exact ⟨by decide, by decide⟩
  · apply below_of_entries
    rw [splitOn_path writes empty]
    intro text member
    obtain ⟨component, _, rfl⟩ := List.mem_map.mp member
    exact writes.components.entry escapes_unreserved component

theorem download_congr (same : fileSystem (server.filePath ndn name) = other (server.filePath ndn name)) (data : Data)
    (worker : Worker) :
    server.download ndn fileSystem name data worker = server.download ndn other name data worker := by
  have opened : worker.file.openAtEnd fileSystem (server.filePath ndn name) =
      worker.file.openAtEnd other (server.filePath ndn name) := by
    simp only [IfStream.openAtEnd, same]
  simp only [Server.download, opened]

end Cxx

/-! ## The Java server -/

namespace Java

/-- The bytes that jNDN leaves as they are. -/
def kept (byte : UInt8) : Bool := unreserved byte || byte == 43

theorem escapes_kept : Escapes kept := ⟨by decide, by decide, by decide⟩

def Jndn.WritesEscaped (jndn : Jndn) : Prop :=
  ∃ uri, WritesComponents kept uri ∧ ∀ component, jndn.toEscapedString component = Reference.ofLatin (uri component)

/-- A path of one component that names an entry of the working directory. -/
structure Entry (path : Text) : Prop where
  single : '/' ∉ path
  nonempty : path ≠ []
  inside : path ≠ "..".toList

variable {jndn : Jndn} {server : Server} {fileSystem other : FileSystem} {name : Name} {file component : Component}

theorem ofLatin_injective : Function.Injective Reference.ofLatin :=
  Function.LeftInverse.injective Reference.latin_ofLatin

theorem toEscapedString_entry (escapes : jndn.WritesEscaped) (component : Component) :
    Entry (jndn.toEscapedString component) := by
  obtain ⟨uri, writes, escaped⟩ := escapes
  have entry := writes.entry escapes_kept component
  rw [escaped]
  refine ⟨fun member => ?_, fun empty => ?_, fun parent => ?_⟩
  · have found : slash ∈ Reference.latin (Reference.ofLatin (uri component)) := List.mem_map_of_mem member
    rw [Reference.latin_ofLatin] at found
    exact entry.single found
  · exact entry.nonempty (List.map_eq_nil_iff.mp empty)
  · exact entry.inside (ofLatin_injective (parent.trans (by decide)))

/-- Both `new File` and `RandomAccessFile` get the third component of the name. -/
theorem doDownload_congr (third : name[2]? = some file)
    (same : fileSystem.lookup (jndn.toEscapedString file) = other.lookup (jndn.toEscapedString file))
    (contents : fileSystem.content = other.content) (pendingFiles : PendingFiles) :
    server.doDownload jndn fileSystem name pendingFiles = server.doDownload jndn other name pendingFiles := by
  unfold Server.doDownload
  split
  · obtain rfl := Option.some.inj third
    simp only [Server.openChannel, same, contents]
  · obtain rfl := Option.some.inj third
    simp only [FileSystem.size, same, contents]
  · rfl

end Java

/-- Whatever the components of a name are, the C++ server opens a relative path
below its working directory, and the Java server an entry of its own. -/
theorem served_below {ndn : Cxx.NdnCxx} {jndn : Java.Jndn} (writes : ndn.WritesUris) (escapes : jndn.WritesEscaped)
    (server : Cxx.Server) (javaServer : Java.Server) (name : Name) :
    (Cxx.Below (server.filePath ndn name) ∧ ∀ fileSystem other : Cxx.FileSystem,
      fileSystem (server.filePath ndn name) = other (server.filePath ndn name) →
        server.download ndn fileSystem name = server.download ndn other name) ∧
    ∀ file, name[2]? = some file → Java.Entry (jndn.toEscapedString file) ∧
      ∀ fileSystem other : Java.FileSystem, fileSystem.content = other.content →
        fileSystem.lookup (jndn.toEscapedString file) = other.lookup (jndn.toEscapedString file) →
          javaServer.doDownload jndn fileSystem name = javaServer.doDownload jndn other name := by
  refine ⟨⟨Cxx.filePath_below writes name, fun fileSystem other same => ?_⟩, fun file third => ?_⟩
  · funext data worker
    exact Cxx.download_congr same data worker
  · refine ⟨Java.toEscapedString_entry escapes file, fun fileSystem other contents same => ?_⟩
    funext pendingFiles
    exact Java.doDownload_congr third same contents pendingFiles

def Java.Jndn.escaping : Java.Jndn where
  __ := Java.Jndn.reference
  toEscapedString component := Java.Reference.ofLatin (writeComponent Java.kept component)

/-- A name that asks for the parent directory, and for a path in one component. -/
def climbingName : Name :=
  [.generic (ascii "throughput"), .generic (ascii "download"), .generic (ascii ".."), .generic (ascii "a/b"),
    Cxx.Reference.fromSegment 0]

theorem served_below_sample :
    Cxx.Below (ascii "...../a%2Fb") ∧ Java.Entry ".....".toList := by
  have escapes : Java.Jndn.escaping.WritesEscaped :=
    ⟨_, writesComponents_writeComponent Java.escapes_kept, fun _ => rfl⟩
  have served := served_below Cxx.writesUris_reference escapes (Cxx.Server.sampleServer 4)
    { defaultData := [], dataModel := .fresh, benchmarkSigner := .unsigned, downloadSigner := .unsigned } climbingName
  have opened : (Cxx.Server.sampleServer 4).filePath .reference climbingName = ascii "...../a%2Fb" := by decide
  have named : Java.Jndn.escaping.toEscapedString (.generic (ascii "..")) = ".....".toList := by decide
  exact ⟨opened ▸ served.1.1, named ▸ (served.2 _ rfl).1⟩

end Ndnperf

import Ndnperf.Java.SteadyFile

namespace Ndnperf.Java.Server

open Ndn Library Library.Word Library.Transition Library.Segmentation

variable {jndn : Jndn} {server : Server} {Thread : Type} [DecidableEq Thread] {state : State Thread}
  {fileSystem : FileSystem} {pendingFiles : PendingFiles} {first second file last : Component} {inode index : Nat}
  {content : Bytes} {labels : List (Label Thread)}

/-! ## One reply -/

/-- The content of the Data that `doDownload` puts for a name. -/
def reply (jndn : Jndn) (server : Server) (fileSystem : FileSystem) (pendingFiles : PendingFiles) (name : Name) :
    Option Bytes :=
  (server.doDownload jndn fileSystem name pendingFiles).1.bind Data.content

/-- The file that segments are read from: the one whose channel is open, or else the one that the path names. -/
def source (fileSystem : FileSystem) (pendingFiles : PendingFiles) (path : Text) (inode : Nat) : Bytes :=
  fileSystem.content ((pendingFiles path).getD inode)

theorem doDownload_read (found : fileSystem.lookup (jndn.toEscapedString file) = some (.readable inode)) :
    (server.doDownload jndn fileSystem [first, second, file, last] pendingFiles).1 =
      (server.readChannel (source fileSystem pendingFiles (jndn.toEscapedString file) inode)
        (int64 (server.maxChunkSize * (jndn.toSegment last).getD 0))).map fun bytes =>
          server.downloadSigner.sign
            { server.dataModel with name := [first, second, file, last], content := some bytes } := by
  simp only [doDownload, openChannel_self found, Option.bind_some, source]
  cases server.readChannel (fileSystem.content ((pendingFiles (jndn.toEscapedString file)).getD inode))
    (int64 (server.maxChunkSize * (jndn.toSegment last).getD 0)) <;> rfl

theorem reply_segment (positive : 1 ≤ server.maxChunkSize)
    (found : fileSystem.lookup (jndn.toEscapedString file) = some (.readable inode))
    (bound : server.maxChunkSize * index < 2 ^ 63) :
    reply jndn server fileSystem pendingFiles [first, second, file, jndn.fromSegment index] =
      some (segment server.maxChunkSize.toNat index
        (source fileSystem pendingFiles (jndn.toEscapedString file) inode)) := by
  have scaled : (index : Int) ≤ server.maxChunkSize * index := by
    have widened := Int.mul_le_mul_of_nonneg_right positive (Int.natCast_nonneg index)
    omega
  have offset : ((index * server.maxChunkSize.toNat : Nat) : Int) = server.maxChunkSize * index := by
    rw [Int.natCast_mul, Int.toNat_of_nonneg (by omega), Int.mul_comm]
  have number := jndn.toSegment_fromSegment index (by omega) (by omega)
  have read : server.readChannel (source fileSystem pendingFiles (jndn.toEscapedString file) inode)
      (int64 (server.maxChunkSize * index)) =
      some (segment server.maxChunkSize.toNat index
        (source fileSystem pendingFiles (jndn.toEscapedString file) inode)) :=
    Download.readChannel_offset positive (by omega)
  rw [reply, doDownload_read found, number, Option.getD_some, read, Option.map_some, Option.bind_some,
    server.downloadSigner.content]

/-! ## All replies together -/

/-- The count that is replied and the segments below it make the file up, and
what is asked for past them is empty. -/
structure Partition (jndn : Jndn) (server : Server) (fileSystem : FileSystem) (pendingFiles : PendingFiles)
    (first second file : Component) (content : Bytes) (count : Int) : Prop where
  counted : (reply jndn server fileSystem pendingFiles [first, second, file]).bind
    (fun bytes => parseLong (jndn.blobText bytes)) = some count
  cut : Cut server.maxChunkSize.toNat content count.toNat fun index =>
    (reply jndn server fileSystem pendingFiles [first, second, file, jndn.fromSegment index]).getD []
  past : ∀ index : Nat, count ≤ index → server.maxChunkSize * index < 2 ^ 63 →
    reply jndn server fileSystem pendingFiles [first, second, file, jndn.fromSegment index] = some []

theorem reply_count (positive : 1 ≤ server.maxChunkSize) (small : server.maxChunkSize ≤ 8192)
    (found : fileSystem.lookup (jndn.toEscapedString file) = some (.readable inode))
    (size : (fileSystem.content inode).length < 2 ^ 63) :
    (reply jndn server fileSystem pendingFiles [first, second, file]).bind
      (fun bytes => parseLong (jndn.blobText bytes)) = some (server.fragments (fileSystem.content inode).length) := by
  have parsed : parseLong (decimal (server.fragments (fileSystem.content inode).length)) =
      some (server.fragments (fileSystem.content inode).length) := by
    rcases Download.fragments_cases positive small size with ⟨counted, upper⟩ | ⟨lower, upper⟩ <;>
      exact parseLong_decimal (by omega) (by omega)
  simp only [reply, doDownload, FileSystem.size, found, Option.map_some, Option.bind_some,
    server.downloadSigner.content, jndn.blobText_blob _ (decimal_ascii _), parsed]

/-- A file whose channel is the one that is open is cut as it should be if its
length and a chunk more fit a `long`. -/
theorem partition_of_fits (positive : 1 ≤ server.maxChunkSize) (small : server.maxChunkSize ≤ 8192)
    (found : fileSystem.lookup (jndn.toEscapedString file) = some (.readable inode))
    (current : (pendingFiles (jndn.toEscapedString file)).getD inode = inode)
    (fits : (fileSystem.content inode).length + server.maxChunkSize ≤ 2 ^ 63) :
    Partition jndn server fileSystem pendingFiles first second file (fileSystem.content inode)
      (server.fragments (fileSystem.content inode).length) := by
  have total := (Download.fragments_of_fits positive fits).1
  have width : 0 < server.maxChunkSize.toNat := by omega
  have opened : source fileSystem pendingFiles (jndn.toEscapedString file) inode = fileSystem.content inode := by
    rw [source, current]
  constructor
  · exact reply_count positive small found (by omega)
  · have cut := cut_segments width (fileSystem.content inode)
    rw [total, Int.toNat_natCast]
    refine cut.congr fun index inside => ?_
    have below : index * server.maxChunkSize.toNat < (fileSystem.content inode).length :=
      mul_lt_of_lt_segmentCount width inside
    have offset : server.maxChunkSize * index = ((index * server.maxChunkSize.toNat : Nat) : Int) := by
      rw [Int.natCast_mul, Int.toNat_of_nonneg (by omega), Int.mul_comm]
    rw [reply_segment positive found (by omega), opened, Option.getD_some]
  · intro index beyond bound
    have covered : (fileSystem.content inode).length ≤
        segmentCount server.maxChunkSize.toNat (fileSystem.content inode).length * server.maxChunkSize.toNat :=
      length_le_segmentCount_mul width
    have further : segmentCount server.maxChunkSize.toNat (fileSystem.content inode).length ≤ index := by omega
    rw [reply_segment positive found bound, opened,
      segment_eq_nil (covered.trans (Nat.mul_le_mul_right _ further))]

/-- Otherwise the count says that there are no segments. -/
theorem not_partition (positive : 1 ≤ server.maxChunkSize) (small : server.maxChunkSize ≤ 8192)
    (found : fileSystem.lookup (jndn.toEscapedString file) = some (.readable inode))
    (size : (fileSystem.content inode).length < 2 ^ 63)
    (overflow : 2 ^ 63 < (fileSystem.content inode).length + server.maxChunkSize) :
    ¬∃ count, Partition jndn server fileSystem pendingFiles first second file (fileSystem.content inode) count := by
  intro partition
  obtain ⟨count, valid⟩ := partition
  have counted : server.fragments (fileSystem.content inode).length = count :=
    Option.some.inj ((reply_count positive small found size).symm.trans valid.counted)
  have none : count.toNat = 0 := Int.toNat_of_nonpos (counted ▸ (Download.fragments_of_overflow small size overflow).2)
  have whole := valid.cut.whole
  rw [none, List.range_zero, List.flatMap_nil] at whole
  rw [← whole, List.length_nil] at overflow
  omega

/-- The threads have the file's own channel open, if any, while the path names that file. -/
theorem current_run {path : Text} (positive : 1 ≤ server.maxChunkSize)
    (steady : ∀ label ∈ labels, Steady path inode inode content label)
    (ran : (system jndn server).run .initial labels = some state) : (state.pendingFiles path).getD inode = inode := by
  have begun : Streams jndn server path inode inode content [] (.initial : State Thread) :=
    ⟨rfl, [], rfl, by simp⟩
  exact (begun.run positive steady ran).source

theorem maxChunkSize_bounds {data8192 : Text} (full : data8192.length = 8192) (chunk freshness : Int)
    (benchmarkSigner downloadSigner : Signer) :
    1 ≤ (new jndn data8192 chunk freshness benchmarkSigner downloadSigner).maxChunkSize ∧
      (new jndn data8192 chunk freshness benchmarkSigner downloadSigner).maxChunkSize ≤ 8192 := by
  by_cases inside : 0 < chunk ∧ chunk ≤ 8192
  · rw [Download.maxChunkSize_new full (by omega) (by omega)]
    omega
  · simp [maxChunkSize, new, inside, full]

/-- Whatever chunk size the server was started with, and whatever it was asked
for while the file stays as it is, the replies make up the file exactly if its
length and a chunk more fit a `long`. -/
theorem partition_iff {data8192 : Text} (full : data8192.length = 8192) {chunk freshness : Int}
    {benchmarkSigner downloadSigner : Signer}
    (started : server = new jndn data8192 chunk freshness benchmarkSigner downloadSigner)
    (found : fileSystem.lookup (jndn.toEscapedString file) = some (.readable inode))
    (size : (fileSystem.content inode).length < 2 ^ 63)
    (steady : ∀ label ∈ labels, Steady (jndn.toEscapedString file) inode inode (fileSystem.content inode) label)
    (ran : (system jndn server).run .initial labels = some state) (first second : Component) :
    (∃ count, Partition jndn server fileSystem state.pendingFiles first second file (fileSystem.content inode) count) ↔
      (fileSystem.content inode).length + server.maxChunkSize ≤ 2 ^ 63 := by
  obtain ⟨positive, small⟩ : 1 ≤ server.maxChunkSize ∧ server.maxChunkSize ≤ 8192 :=
    started ▸ maxChunkSize_bounds full chunk freshness benchmarkSigner downloadSigner
  constructor
  · intro partition
    by_contra long
    exact not_partition positive small found size (by omega) partition
  · intro fits
    exact ⟨_, partition_of_fits positive small found (current_run positive steady ran) fits⟩

/-! ## The segment that a name asks for -/

/-- A Data that is put for a name has its number and carries the bytes from
`number * width` on, none past the end. -/
def NamedSegment (jndn : Jndn) (server : Server) (fileSystem : FileSystem) (pendingFiles : PendingFiles)
    (name : Name) (last : Component) (content : Bytes) : Prop :=
  ∀ data, (server.doDownload jndn fileSystem name pendingFiles).1 = some data →
    data.name = name ∧ ∃ index : Nat, jndn.toSegment last = some (index : Int) ∧
      data.content = some (segment server.maxChunkSize.toNat index content)

/-- The component is a number. Its offset is one that no file is read at, or the
number is not negative and what is read there, from a file that may be another
one by now, is the same: the same segment, or nothing behind the end of both. -/
def Addresses (jndn : Jndn) (server : Server) (last : Component) (content opened : Bytes) : Prop :=
  ∃ number, jndn.toSegment last = some number ∧
    (2 ^ 63 ≤ server.maxChunkSize * number % 2 ^ 64 ∨
      0 ≤ number ∧
        (server.maxChunkSize * number < 2 ^ 63 ∧
            segment server.maxChunkSize.toNat number.toNat opened =
              segment server.maxChunkSize.toNat number.toNat content ∨
          2 ^ 63 ≤ server.maxChunkSize * number ∧ opened.length ≤ server.maxChunkSize * number % 2 ^ 64))

theorem readChannel_wrapped {opened : Bytes} {offset : Int} (inside : offset % 2 ^ 64 < 2 ^ 63) :
    server.readChannel opened (int64 offset) =
      some ((opened.drop (offset % 2 ^ 64).toNat).take server.maxChunkSize.toNat) := by
  have position : int64 offset = offset % 2 ^ 64 := by rw [int64_eq_emod, if_pos inside]
  rw [readChannel, position, if_neg (by omega)]

/-- What is read at a wrapped offset, against the segment of the number. -/
theorem wrapped_eq_segment_iff (positive : 1 ≤ server.maxChunkSize) (size : content.length < 2 ^ 63) {opened : Bytes} :
    (opened.drop (server.maxChunkSize * index % 2 ^ 64).toNat).take server.maxChunkSize.toNat =
        segment server.maxChunkSize.toNat index content ↔
      server.maxChunkSize * index < 2 ^ 63 ∧
          segment server.maxChunkSize.toNat index opened = segment server.maxChunkSize.toNat index content ∨
        2 ^ 63 ≤ server.maxChunkSize * index ∧ opened.length ≤ server.maxChunkSize * index % 2 ^ 64 := by
  have offset : server.maxChunkSize * index = ((index * server.maxChunkSize.toNat : Nat) : Int) := by
    rw [Int.natCast_mul, Int.toNat_of_nonneg (by omega), Int.mul_comm]
  rw [offset]
  by_cases fits : index * server.maxChunkSize.toNat < 2 ^ 63
  · have unwrapped : (((index * server.maxChunkSize.toNat : Nat) : Int) % 2 ^ 64).toNat =
        index * server.maxChunkSize.toNat := by omega
    rw [unwrapped, ← Segmentation.segment]
    exact ⟨fun same => .inl ⟨by omega, same⟩, fun either => either.elim And.right (fun long => by omega)⟩
  · have beyond : segment server.maxChunkSize.toNat index content = [] := segment_eq_nil (by omega)
    rw [beyond, List.take_eq_nil_iff, List.drop_eq_nil_iff]
    have wide : server.maxChunkSize.toNat ≠ 0 := by omega
    simp only [wide, false_or]
    exact ⟨fun short => .inr ⟨by omega, by omega⟩, fun either => either.elim (fun small => by omega)
      (fun long => by omega)⟩

/-- Every Data that is put for a name with an existing file is the one that the
name asks for exactly if its last component addresses it. -/
theorem named_segment_iff (positive : 1 ≤ server.maxChunkSize)
    (found : fileSystem.lookup (jndn.toEscapedString file) = some (.readable inode))
    (size : (fileSystem.content inode).length < 2 ^ 63) (first second last : Component) (pendingFiles : PendingFiles) :
    NamedSegment jndn server fileSystem pendingFiles [first, second, file, last] last (fileSystem.content inode) ↔
      Addresses jndn server last (fileSystem.content inode)
        (source fileSystem pendingFiles (jndn.toEscapedString file) inode) := by
  have width : 0 < server.maxChunkSize.toNat := by omega
  rw [NamedSegment, doDownload_read found]
  generalize source fileSystem pendingFiles (jndn.toEscapedString file) inode = opened
  cases decoded : jndn.toSegment last with
  | none =>
      -- The first segment is put under a name without a number.
      refine iff_of_false (fun named => ?_) (fun addresses => ?_)
      · simp [readChannel, int64] at named
      · obtain ⟨number, same, _⟩ := addresses
        simp [decoded] at same
  | some number =>
      rw [Option.getD_some]
      by_cases wraps : 2 ^ 63 ≤ server.maxChunkSize * number % 2 ^ 64
      · have refused : server.readChannel opened (int64 (server.maxChunkSize * number)) = none :=
          if_pos (int64_neg_iff.mpr wraps)
        rw [refused]
        exact iff_of_true (fun _ put => by simp at put) ⟨number, decoded, .inl wraps⟩
      · rw [readChannel_wrapped (by omega), Option.map_some]
        constructor
        · intro named
          obtain ⟨_, index, same, carried⟩ := named _ rfl
          obtain rfl := Option.some.inj same
          rw [server.downloadSigner.content] at carried
          exact ⟨index, decoded, .inr ⟨Int.natCast_nonneg index,
            (wrapped_eq_segment_iff positive size).mp (Option.some.inj carried)⟩⟩
        · intro addresses data put
          obtain ⟨other, same, either⟩ := addresses
          obtain rfl := Option.some.inj (same.symm.trans decoded)
          obtain ⟨nonnegative, reads⟩ := either.resolve_left wraps
          obtain ⟨index, rfl⟩ := Int.eq_ofNat_of_zero_le nonnegative
          rw [Int.toNat_natCast] at reads
          obtain rfl := Option.some.inj put
          refine ⟨server.downloadSigner.name _, index, rfl, ?_⟩
          rw [server.downloadSigner.content, (wrapped_eq_segment_iff positive size).mpr reads]

/-! A file of one byte, and one as long as a `long` can say. -/

def sampleFile (content : Bytes) : FileSystem where
  lookup path := if path = "a".toList then some (.readable 0) else none
  content _ := content

def sampleChunks (chunk : Int) : Server := new .reference (List.replicate 8192 'a') chunk 0 .unsigned .unsigned

theorem sampleChunks_bounds (chunk : Int) :
    1 ≤ (sampleChunks chunk).maxChunkSize ∧ (sampleChunks chunk).maxChunkSize ≤ 8192 :=
  maxChunkSize_bounds List.length_replicate chunk 0 .unsigned .unsigned

theorem sampleFile_found (content : Bytes) :
    (sampleFile content).lookup (Jndn.reference.toEscapedString (.generic [97])) = some (.readable 0) := by
  have same : Jndn.reference.toEscapedString (.generic [97]) = "a".toList := by decide
  simp only [sampleFile, same, if_true]

/-- The request of a segment of the file, up to its Data. -/
def sampleRequested (content : Bytes) : List (Label Unit) :=
  [.onInterest [.generic [], .generic (ascii "download"), .generic [97], Reference.fromSegment 1] 0, .offer] ++
    List.replicate 4 (.worker () (sampleFile content))

theorem partition_sample :
    ∃ state count, (system .reference (sampleChunks 2)).run .initial (sampleRequested [65, 66, 67, 68, 69]) =
      some state ∧ state.pendingFiles "a".toList = some 0 ∧
      Partition .reference (sampleChunks 2) (sampleFile [65, 66, 67, 68, 69]) state.pendingFiles (.generic [])
        (.generic []) (.generic [97]) [65, 66, 67, 68, 69] count := by
  have ends : ((system .reference (sampleChunks 2)).run .initial (sampleRequested [65, 66, 67, 68, 69])).map
      (fun state : State Unit => state.pendingFiles "a".toList) = some (some 0) := by decide +kernel
  obtain ⟨state, ran, opened⟩ := Option.map_eq_some_iff.mp ends
  have started : sampleChunks 2 = new .reference (List.replicate 8192 'a') 2 0 .unsigned .unsigned := rfl
  have steady : ∀ label ∈ sampleRequested [65, 66, 67, 68, 69],
      Steady (Jndn.reference.toEscapedString (.generic [97])) 0 0 [65, 66, 67, 68, 69] label := by
    intro label member
    rcases List.mem_append.mp member with arrives | handled
    · simp only [List.mem_cons, List.not_mem_nil, or_false] at arrives
      rcases arrives with rfl | rfl <;> trivial
    · rw [List.eq_of_mem_replicate handled]
      exact ⟨sampleFile_found _, rfl⟩
  have fits : (((sampleFile [65, 66, 67, 68, 69]).content 0).length : Int) + (sampleChunks 2).maxChunkSize ≤
      2 ^ 63 := by
    have small := (sampleChunks_bounds 2).2
    simp only [sampleFile, List.length_cons, List.length_nil]
    omega
  obtain ⟨count, partition⟩ := (partition_iff List.length_replicate started (sampleFile_found _) (by decide) steady ran
    (.generic []) (.generic [])).mpr fits
  exact ⟨state, count, ran, opened, partition⟩

/-- The count of the longest file in chunks of two bytes is negative. -/
theorem longest_file_lost :
    ¬∃ count, Partition .reference (sampleChunks 2) (sampleFile (List.replicate (2 ^ 63 - 1) 65))
      (State.initial : State Unit).pendingFiles (.generic []) (.generic []) (.generic [97])
      (List.replicate (2 ^ 63 - 1) 65) count := by
  obtain ⟨positive, small⟩ := sampleChunks_bounds 2
  have long : ((sampleFile (List.replicate (2 ^ 63 - 1) 65)).content 0).length = 2 ^ 63 - 1 := List.length_replicate
  have two : (sampleChunks 2).maxChunkSize = 2 := Download.maxChunkSize_new List.length_replicate (by omega) (by omega)
  exact not_partition positive small (sampleFile_found _) (by omega) (by omega)

def segmentRequest (last : Component) : Name := [.generic [], .generic [], .generic [97], last]

theorem named_segment_sample :
    NamedSegment .reference (sampleChunks 1) (sampleFile [65]) (fun _ => none)
      (segmentRequest (Jndn.reference.fromSegment 0)) (Jndn.reference.fromSegment 0) [65] := by
  have decided := named_segment_iff (sampleChunks_bounds 1).1 (sampleFile_found [65]) (by decide) (.generic [])
      (.generic []) (Jndn.reference.fromSegment 0) fun _ => none
  refine decided.mpr ⟨0, by decide, .inr ⟨Int.le_refl 0, .inl ⟨by simp, rfl⟩⟩⟩

/-- The start of the file is put under a name without a number, and under one
whose offset comes around to it. -/
theorem segment_under_other_name :
    ¬NamedSegment .reference (sampleChunks 4) (sampleFile [65]) (fun _ => none) (segmentRequest (.generic [66]))
        (.generic [66]) [65] ∧
      ¬NamedSegment .reference (sampleChunks 4) (sampleFile [65]) (fun _ => none)
        (segmentRequest (Jndn.reference.fromSegment (2 ^ 62))) (Jndn.reference.fromSegment (2 ^ 62)) [65] := by
  have four : (sampleChunks 4).maxChunkSize = 4 := Download.maxChunkSize_new List.length_replicate (by omega) (by omega)
  refine ⟨fun named => ?_, fun named => ?_⟩
  · have unnumbered : Jndn.reference.toSegment (.generic [66]) = none := by decide
    rw [NamedSegment, segmentRequest, doDownload_read (sampleFile_found [65]), unnumbered] at named
    simp [readChannel, int64] at named
  · have number := Jndn.reference.toSegment_fromSegment (2 ^ 62) (by omega) (by omega)
    rw [NamedSegment, segmentRequest, doDownload_read (sampleFile_found [65]), number, Option.getD_some, four,
      readChannel_wrapped (by decide), Option.map_some] at named
    obtain ⟨_, index, same, carried⟩ := named _ rfl
    have large : (2 : Int) ^ 62 = index := Option.some.inj same
    have past : 1 ≤ index * 4 := by omega
    have beyond : segment (4 : Int).toNat index [(65 : UInt8)] = [] := segment_eq_nil past
    rw [(sampleChunks 4).downloadSigner.content, four, beyond] at carried
    simp [source, sampleFile] at carried

end Ndnperf.Java.Server

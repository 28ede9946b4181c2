import Ndnperf.Library.Outcome
import Ndnperf.Library.Segmentation
import Ndnperf.Cxx.Server

namespace Ndnperf.Cxx.Server

open Ndn Library.Word Library.Outcome Library.Segmentation

variable {ndn : NdnCxx} {server : Server} {fileSystem : FileSystem} {request : Request}
  {worker after : Worker} {data : Data} {name : Name} {content : Bytes} {segment : Nat}

/-! ## When an iteration completes -/

theorem component_eq_ok {index : Nat} {found : Component} :
    component name index = .ok found ↔ name[index]? = some found := by
  unfold component
  split <;> simp_all

theorem succeeds_segmentNumber {last : Component} :
    Succeeds (segmentNumber ndn last) ↔ (ndn.toSegment last).isSome := by
  unfold segmentNumber
  split <;> simp_all [Succeeds]

theorem succeeds_maxSegNum (endOffset : Int) {payloadSize : Nat} :
    Succeeds (maxSegNum endOffset payloadSize) ↔ payloadSize ≠ 0 := by
  unfold maxSegNum
  split <;> simp_all [Succeeds]

theorem succeeds_readSegment :
    Succeeds (server.readSegment ndn name data worker) ↔
      server.payloadSize ≠ 0 ∧ ∃ last, name.getLast? = some last ∧ (ndn.toSegment last).isSome := by
  simp only [readSegment, bind, pure, Except.pure]
  rw [succeeds_bind]
  simp only [succeeds_bind (component _ _), component_eq_ok, ← List.getLast?_eq_getElem?,
    succeeds_bind_ok, succeeds_segmentNumber,
    exists_and_right]
  rw [← succeeds_maxSegNum worker.file.tellg]
  rfl

/-- An iteration answers `name`: there is a component after the registered ones
and, if it asks for a download and the path opens, the payload size is not zero
and the last component is a segment number. -/
def Answerable (ndn : NdnCxx) (server : Server) (fileSystem : FileSystem) (name : Name) : Prop :=
  ∃ selector, name[server.namePrefix.length]? = some selector ∧
    (ndn.componentToUri selector = ascii "download" → (fileSystem (server.filePath ndn name)).isSome →
      server.payloadSize ≠ 0 ∧ ∃ last, name.getLast? = some last ∧ (ndn.toSegment last).isSome)

theorem succeeds_download (idle : worker.file.isOpen = false) :
    Succeeds (server.download ndn fileSystem name data worker) ↔
      ((fileSystem (server.filePath ndn name)).isSome →
        server.payloadSize ≠ 0 ∧ ∃ last, name.getLast? = some last ∧ (ndn.toSegment last).isSome) := by
  simp only [download, bind, pure, Except.pure, IfStream.openAtEnd_isOpen idle]
  split
  · rename_i opens
    simp only [succeeds_bind_ok, succeeds_readSegment, opens, true_implies]
  · rename_i refused
    simp only [succeeds_bind_ok, succeeds_ok, refused, Bool.false_eq_true, false_implies]

theorem succeeds_answer (idle : worker.file.isOpen = false) :
    Succeeds (server.answer ndn fileSystem name worker) ↔ server.Answerable ndn fileSystem name := by
  simp only [answer, bind, pure, Except.pure, succeeds_bind (component _ _), component_eq_ok, Answerable]
  refine exists_congr fun selector => and_congr_right fun _ => ?_
  split
  · rename_i chosen
    rw [succeeds_download idle]
    simp only [chosen, true_implies]
  · rename_i other
    simp only [succeeds_ok, other, false_implies]

/-- An iteration answers between the updates of its row. -/
theorem process_eq (fileSystem : FileSystem) (request : Request) (worker : Worker) :
    server.process ndn fileSystem request worker =
      (server.answer ndn fileSystem request.name (worker.add .qtime request.queueTime)).map fun (data, answered) =>
        (data, (answered.add .packetCount 1).add .ptime request.processingTime) := by
  simp only [process, bind, pure, Except.pure, Worker.add, LogVars.add]
  generalize server.answer ndn fileSystem request.name _ = answered
  cases answered <;> rfl

theorem succeeds_process (idle : worker.file.isOpen = false) :
    Succeeds (server.process ndn fileSystem request worker) ↔ server.Answerable ndn fileSystem request.name := by
  rw [process_eq, succeeds_map]
  exact succeeds_answer idle

/-! ## What one iteration leaves behind -/

theorem readSegment_name {next : Data} (answered : server.readSegment ndn name data worker = .ok (next, after)) :
    next.name = data.name := by
  simp only [readSegment, bind, pure, Except.pure, bind_eq_ok, Except.ok.injEq] at answered
  obtain ⟨_, _, _, _, _, _, filled⟩ := answered
  exact (congrArg (fun pair => pair.1.name) filled).symm

theorem download_ok {next : Data} (answered : server.download ndn fileSystem name data worker = .ok (next, after)) :
    next.name = data.name ∧ after.file.isOpen = false := by
  simp only [download, bind, pure, Except.pure] at answered
  split at answered <;> simp only [bind_eq_ok, Except.ok.injEq, Prod.mk.injEq] at answered <;>
    obtain ⟨⟨found, read⟩, first, rfl, rfl⟩ := answered <;> refine ⟨?_, IfStream.close_isOpen⟩
  · exact readSegment_name first
  · exact (congrArg (fun pair => pair.1.name) first).symm

theorem answer_ok (idle : worker.file.isOpen = false)
    (answered : server.answer ndn fileSystem name worker = .ok (data, after)) :
    data.name = name ∧ after.file.isOpen = false := by
  simp only [answer, bind, bind_eq_ok] at answered
  obtain ⟨selector, _, answered⟩ := answered
  split at answered
  · exact download_ok answered
  · simp only [generated, pure, Except.pure, Except.ok.injEq, Prod.mk.injEq] at answered
    obtain ⟨rfl, rfl⟩ := answered
    exact ⟨rfl, idle⟩

/-- Every iteration answers with a Data of the requested name and leaves the
thread's stream closed, whatever state bits it carries over. -/
theorem process_ok (idle : worker.file.isOpen = false)
    (answered : server.process ndn fileSystem request worker = .ok (data, after)) :
    data.name = request.name ∧ after.file.isOpen = false := by
  rw [process_eq, map_eq_ok] at answered
  obtain ⟨⟨found, served⟩, first, same⟩ := answered
  simp only [Prod.mk.injEq] at same
  obtain ⟨rfl, rfl⟩ := same
  have waiting : (worker.add .qtime request.queueTime).file.isOpen = false := idle
  obtain ⟨named, closed⟩ := answer_ok waiting first
  exact ⟨named, closed⟩

theorem fill_log {found : Data} {maxSegNum : Int}
    (filled : server.fill ndn data worker maxSegNum segment = (found, after)) :
    after.log = worker.log.add found.content.length .payloadSum := by
  simp only [fill, Prod.mk.injEq] at filled
  obtain ⟨rfl, rfl⟩ := filled
  simp only [LogVars.add, IfStream.read_gcount, List.length_take, List.length_append,
    Nat.min_eq_left (Nat.le_add_right _ _)]

/-- An answer adds its payload to the first place of the row, if it has one. -/
theorem answer_adds (answered : server.answer ndn fileSystem name worker = .ok (data, after)) :
    worker.log.Adds .payloadSum (server.payload ndn name data) after.log := by
  simp only [answer, bind, bind_eq_ok, component_eq_ok] at answered
  obtain ⟨selector, selected, answered⟩ := answered
  rw [payload, selected, Option.map_some]
  split at answered
  · rename_i chosen
    rw [if_pos (congrArg some chosen)]
    simp only [download, bind, pure, Except.pure] at answered
    split at answered <;> simp only [bind_eq_ok, Except.ok.injEq, Prod.mk.injEq] at answered <;>
      obtain ⟨⟨found, served⟩, first, rfl, rfl⟩ := answered
    · simp only [readSegment, bind, pure, Except.pure, bind_eq_ok, Except.ok.injEq] at first
      obtain ⟨_, _, _, _, _, _, filled⟩ := first
      have logged := fill_log filled
      exact .inl logged
    · obtain ⟨rfl, rfl⟩ := Prod.mk.inj first
      exact .inr ⟨rfl, rfl⟩
  · rename_i other
    rw [if_neg (by simpa using other)]
    simp only [generated, pure, Except.pure, Except.ok.injEq, Prod.mk.injEq] at answered
    obtain ⟨rfl, rfl⟩ := answered
    exact .inl rfl

theorem processAll_idle {requests : List (FileSystem × Request)} (idle : worker.file.isOpen = false)
    (served : server.processAll ndn worker requests = .ok after) : after.file.isOpen = false := by
  induction requests generalizing worker with
  | nil =>
      simp only [processAll, Except.ok.injEq] at served
      exact served ▸ idle
  | cons entry rest ih =>
      simp only [processAll, bind, bind_eq_ok] at served
      obtain ⟨⟨data, next⟩, first, others⟩ := served
      exact ih (process_ok idle first).2 others

theorem History.worker_idle {history : History} (reached : history.worker ndn server = .ok worker) :
    worker.file.isOpen = false :=
  processAll_idle rfl reached

/-- An iteration of `process` puts one Data for exactly the answerable names,
whatever the thread has served before. -/
theorem process_answers_iff {history : History} (reached : history.worker ndn server = .ok worker)
    (fileSystem : FileSystem) (request : Request) :
    (∃ data after, server.process ndn fileSystem request worker = .ok (data, after) ∧ data.name = request.name) ↔
      server.Answerable ndn fileSystem request.name := by
  rw [← succeeds_process (History.worker_idle reached)]
  constructor
  · intro held
    obtain ⟨data, after, answered, _⟩ := held
    exact ⟨_, answered⟩
  · intro held
    obtain ⟨⟨data, after⟩, answered⟩ := held
    exact ⟨data, after, answered, (process_ok (History.worker_idle reached) answered).1⟩

/-- The server `main` builds from a command line, with an all-zero payload text. -/
def commandLine (arguments : List Bytes) : Option Server :=
  (parseOptions arguments (Options.default 1)).map fun options =>
    options.server .reference (List.replicate options.payloadSize 48)

def sampleFiles : FileSystem := fun path => if path = ascii "a" then some (.regular [65]) else none

def plainRequest (name : Name) : Request := { name, queueTime := 0, processingTime := 0 }

def sampleName (rest : Name) : Name := .generic (ascii "throughput") :: rest

def downloadName (last : Component) : Name :=
  sampleName [.generic (ascii "download"), .generic (ascii "a"), last]

theorem process_answers_sample :
    ∃ server, commandLine [] = some server ∧
      ∃ data after,
        server.process .reference sampleFiles (plainRequest (downloadName (Reference.fromSegment 0))) (.start []) =
          .ok (data, after) ∧ data.name = downloadName (Reference.fromSegment 0) := by
  have fresh (server : Server) : ({ stack := [], served := [] } : History).worker .reference server = .ok (.start []) :=
    rfl
  exact ⟨_, rfl, (process_answers_iff (fresh _) sampleFiles _).mpr
    ⟨_, rfl, fun _ _ => ⟨by decide, _, rfl, by decide⟩⟩⟩

/-- The bare prefix, a last component that is no segment number, and `-c 0`
each stop a worker thread on a name under the registered prefix. -/
theorem process_stops :
    (∃ server, commandLine [] = some server ∧ server.namePrefix <+: sampleName [] ∧
      server.process .reference sampleFiles (plainRequest (sampleName [])) (.start []) = .error .nameIndex) ∧
    (∃ server, commandLine [] = some server ∧ server.namePrefix <+: downloadName (.generic (ascii "x")) ∧
      server.process .reference sampleFiles (plainRequest (downloadName (.generic (ascii "x")))) (.start []) =
        .error .notSegment) ∧
    (∃ server, commandLine [ascii "-c", ascii "0"] = some server ∧
      server.namePrefix <+: downloadName (Reference.fromSegment 0) ∧
      server.process .reference sampleFiles (plainRequest (downloadName (Reference.fromSegment 0))) (.start []) =
        .error .divisionByZero) :=
  ⟨⟨_, rfl, by decide, rfl⟩, ⟨_, rfl, by decide, rfl⟩, ⟨_, rfl, by decide, rfl⟩⟩

/-! ## Which bytes a segment request is answered with -/

structure AsksFor (ndn : NdnCxx) (server : Server) (fileSystem : FileSystem) (name : Name) (segment : Nat)
    (content : Bytes) : Prop where
  selected : ∃ selector, name[server.namePrefix.length]? = some selector ∧
    ndn.componentToUri selector = ascii "download"
  numbered : ∃ last, name.getLast? = some last ∧ ndn.toSegment last = some segment
  found : fileSystem (server.filePath ndn name) = some (.regular content)
  size : content.length < 2 ^ 63

/-- The signed offset is negative exactly when the 64-bit product is beyond
every file, so reading there and reading past the end both deliver nothing. -/
theorem read_segmentOffset (size : content.length < 2 ^ 63) (segment payloadSize : Nat) :
    (if 0 ≤ segmentOffset segment payloadSize then
      (content.drop (segmentOffset segment payloadSize).toNat).take payloadSize else []) =
      (content.drop (segment * payloadSize % 2 ^ 64)).take payloadSize := by
  have wrapped : segment * payloadSize % 2 ^ 64 < 2 ^ 64 := Nat.mod_lt _ (by norm_num)
  rw [segmentOffset, int64_natCast wrapped]
  generalize segment * payloadSize % 2 ^ 64 = product at wrapped
  by_cases low : product < 2 ^ 63
  · rw [if_pos low, if_pos (Int.natCast_nonneg product), Int.toNat_natCast]
  · have negative : ¬(0 : Int) ≤ product - 2 ^ 64 := by omega
    rw [if_neg low, if_neg negative, List.drop_eq_nil_of_le (by omega), List.take_nil]

theorem fill_data (maxSegNum : Int) :
    (server.fill ndn data worker maxSegNum segment).1 =
      { data with
        content := ((worker.file.seekg (segmentOffset segment server.payloadSize)).read server.payloadSize).1
        finalBlock := some (ndn.fromSegment (uint64 maxSegNum)) } := by
  simp only [fill, IfStream.read_gcount, List.take_left]

def lastSegmentOf (length payloadSize : Nat) : Int := int64 (uint64 (length - 1) / payloadSize : Nat)

/-- The Data an iteration puts for a segment of a regular file, for every state
its worker thread can be in. -/
theorem process_regular (request : Request) (idle : worker.file.isOpen = false) (positive : 0 < server.payloadSize)
    (asks : AsksFor ndn server fileSystem request.name segment content) :
    ∃ after, server.process ndn fileSystem request worker = .ok (
      { name := request.name
        freshnessPeriod := server.freshness
        content := (content.drop (segment * server.payloadSize % 2 ^ 64)).take server.payloadSize
        finalBlock := some (ndn.fromSegment (uint64 (lastSegmentOf content.length server.payloadSize))) },
      after) := by
  obtain ⟨⟨selector, here, chosen⟩, ⟨last, final, decoded⟩, found, size⟩ := asks
  have opened : (worker.file.openAtEnd fileSystem (server.filePath ndn request.name)).isOpen =
      (fileSystem (server.filePath ndn request.name)).isSome := IfStream.openAtEnd_isOpen idle
  have atEnd := IfStream.tellg_openAtEnd idle found
  have nonzero : server.payloadSize ≠ 0 := by omega
  rw [List.getLast?_eq_getElem?] at final
  simp only [process, answer, component, here, chosen, if_true, download, opened, found,
    Option.isSome_some, readSegment,
    final, segmentNumber, decoded, maxSegNum, nonzero, if_false, fill_data, atEnd, bind, Except.bind, pure,
    Except.pure, Except.ok.injEq, Prod.mk.injEq, exists_and_left, exists_eq', and_true]
  rw [IfStream.seek_read_regular idle found, read_segmentOffset size]
  rfl

/-- The law of slices: segment `segment` carries the bytes from `segment * P`
up to the next multiple of `P` or the end of the file, computed without overflow. -/
def SliceLaw (ndn : NdnCxx) (server : Server) (fileSystem : FileSystem) (request : Request) (worker : Worker)
    (segment : Nat) (content : Bytes) : Prop :=
  ∃ data after, server.process ndn fileSystem request worker = .ok (data, after) ∧
    data.content = Library.Segmentation.segment server.payloadSize segment content

/-- Reading at the product modulo 2^64 goes wrong only where the product
overflows and the wrapped offset falls inside the file. -/
theorem wrapped_slice_iff (positive : 0 < server.payloadSize) (size : content.length < 2 ^ 63) :
    (content.drop (segment * server.payloadSize % 2 ^ 64)).take server.payloadSize =
        Library.Segmentation.segment server.payloadSize segment content ↔
      segment * server.payloadSize < 2 ^ 64 ∨ content.length ≤ segment * server.payloadSize % 2 ^ 64 := by
  rcases Nat.lt_or_ge (segment * server.payloadSize) (2 ^ 64) with small | large
  · simp only [Nat.mod_eq_of_lt small, small, true_or, iff_true]
    rfl
  · rw [segment_eq_nil (by omega)]
    have overflow : ¬segment * server.payloadSize < 2 ^ 64 := by omega
    simp only [overflow, false_or]
    rw [← List.length_eq_zero_iff, List.length_take, List.length_drop]
    omega

theorem slice_law_iff {history : History} (reached : history.worker ndn server = .ok worker)
    (positive : 1 ≤ server.payloadSize)
    (asks : AsksFor ndn server fileSystem request.name segment content) :
    SliceLaw ndn server fileSystem request worker segment content ↔
      segment * server.payloadSize < 2 ^ 64 ∨ content.length ≤ segment * server.payloadSize % 2 ^ 64 := by
  obtain ⟨after, answered⟩ := process_regular request (History.worker_idle reached) positive asks
  rw [← wrapped_slice_iff positive asks.size]
  constructor
  · intro held
    obtain ⟨data, _, same, sliced⟩ := held
    rw [answered, Except.ok.injEq, Prod.mk.injEq] at same
    rw [← same.1] at sliced
    exact sliced
  · intro sliced
    exact ⟨_, after, answered, sliced⟩

def sampleServer (payloadSize : Nat) : Server where
  namePrefix := sampleName []
  content := List.replicate payloadSize 48
  payloadSize
  freshness := 0

theorem asksFor_sample (segment : Nat) (bound : segment < 2 ^ 64) :
    AsksFor .reference (sampleServer 4) sampleFiles (downloadName (Reference.fromSegment segment)) segment [65] where
  selected := ⟨.generic (ascii "download"), rfl, by decide⟩
  numbered := ⟨Reference.fromSegment segment, rfl, Reference.toSegment_fromSegment segment bound⟩
  found := rfl
  size := by decide

def tenBytes : Bytes := [48, 49, 50, 51, 52, 53, 54, 55, 56, 57]

def longerFiles : FileSystem := fun path => if path = ascii "a" then some (.regular tenBytes) else none

/-- A worker that has read the end of the file, and found no file under another name. -/
def sampleHistory : History where
  stack := List.replicate 4 0
  served := [(longerFiles, plainRequest (downloadName (Reference.fromSegment 2))),
    (sampleFiles, plainRequest (sampleName [.generic (ascii "download"), .generic (ascii "b"),
      Reference.fromSegment 0]))]

theorem slice_law_sample : ∃ worker, sampleHistory.worker .reference (sampleServer 4) = .ok worker ∧
    SliceLaw .reference (sampleServer 4) longerFiles (plainRequest (downloadName (Reference.fromSegment 1))) worker 1
      tenBytes := by
  have ready : ∃ worker, sampleHistory.worker .reference (sampleServer 4) = .ok worker := ⟨_, rfl⟩
  obtain ⟨worker, reached⟩ := ready
  have asks : AsksFor .reference (sampleServer 4) longerFiles (downloadName (Reference.fromSegment 1)) 1 tenBytes :=
    ⟨⟨.generic (ascii "download"), rfl, by decide⟩,
      ⟨Reference.fromSegment 1, rfl, Reference.toSegment_fromSegment 1 (by decide)⟩, rfl, by decide⟩
  exact ⟨worker, reached, (slice_law_iff reached (by decide) asks).mpr (.inl (by decide))⟩

/-- Segment 2^62 of a one-byte file with four bytes to a packet: the product is
2^64, the seek goes to offset 0, and the reply carries the first byte instead of nothing. -/
theorem slice_law_fails :
    AsksFor .reference (sampleServer 4) sampleFiles (downloadName (Reference.fromSegment (2 ^ 62))) (2 ^ 62) [65] ∧
      (∃ data after, (sampleServer 4).process .reference sampleFiles
        (plainRequest (downloadName (Reference.fromSegment (2 ^ 62)))) (.start (List.replicate 4 0)) =
          .ok (data, after) ∧ data.content = [65]) ∧
      ¬SliceLaw .reference (sampleServer 4) sampleFiles
        (plainRequest (downloadName (Reference.fromSegment (2 ^ 62)))) (.start (List.replicate 4 0)) (2 ^ 62) [65] := by
  refine ⟨asksFor_sample _ (by norm_num), ⟨_, _, rfl, rfl⟩, ?_⟩
  intro held
  obtain ⟨data, after, answered, sliced⟩ := held
  have carried : Except.ok [65] = Except.ok (ε := Fault) data.content :=
    congrArg (Except.map fun pair : Data × Worker => pair.1.content) answered
  rw [sliced] at carried
  exact absurd carried (by decide)

end Ndnperf.Cxx.Server

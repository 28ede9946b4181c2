import Ndnperf.Java.ClientInvariant

namespace Ndnperf.Java.Client

open Ndn Library Library.Transition

variable {jndn : Jndn} {client : Client} {target : Target} {max : Int} {state : State} {image : Fetch.State}
  {Valid : Nat → Bytes → Prop} {arrived : Nat → Option Bytes} {file : PendingFile} {busy : Option Nat}

def MainPc.idle : MainPc → Bool
  | .loop | .events | .ended => true
  | _ => false

/-- What `nextSegment` has handed out so far; the last of it may not be written yet. -/
def State.handed (state : State) : List Bytes := state.written ++ state.fileManager.inHand.toList

/-- The main thread has handled the Data of every segment to the end. -/
def State.Received (max : Int) (state : State) : Prop :=
  (∀ index : Nat, (index : Int) < max → ∃ content, ((index : Int), content) ∈ state.received) ∧
    ∀ name, state.main ≠ .release name

/-- A download in order: segments are asked for from zero on and once each,
written from zero on and once each, and neither thread stops early. -/
structure Orderly (jndn : Jndn) (client : Client) (target : Target) (max : Int) (state : State) : Prop where
  requested : state.requested = (List.range (min state.next state.max).toNat).map (target.segmentName jndn)
  once : state.requested.Nodup
  inside : ∀ name ∈ state.requested, ∃ index : Nat, (index : Int) < max ∧ name = target.segmentName jndn index
  complete : state.main.idle → state.face = [] → ∀ index : Nat, (index : Int) < max →
    target.segmentName jndn index ∈ state.requested ∧ ∃ content, ((index : Int), content) ∈ state.received
  receivedOnce : (state.received.map Prod.fst).Nodup
  unopened : state.pendingFile = none → state.written = []
  written : ∀ file ∈ state.pendingFile, state.handed.length = file.position ∧
    ∀ (index : Nat) (content : Bytes), state.handed[index]? = some content → ((index : Int), content) ∈ state.received
  channel : ∀ file ∈ state.pendingFile, file.channel.Wrote (target.existing jndn client) state.written.flatten
  finished : state.cont = false → (state.written.length : Int) = max ∧
    ∀ index : Nat, (index : Int) < max → target.segmentName jndn index ∈ state.requested
  awake : ∀ file ∈ state.pendingFile, state.Received max → (file.position : Int) < max → ∀ permits,
    state.fileManager = .acquire permits → 0 < state.filePass ∧ permits ≤ state.filePass

theorem Waiting.orderly (waiting : Waiting jndn client target state) (opening : 1 ≤ client.window) :
    Orderly jndn client target max state where
  requested := by
    have none : min state.next state.max = 0 := by
      rw [waiting.next, waiting.max]
      omega
    rw [waiting.requested, none]
    rfl
  once := by simp [waiting.requested]
  inside := by simp [waiting.requested]
  complete idle unsent := by
    rcases waiting.begun with ⟨polling, _⟩ | ⟨_, _, sent, _⟩
    · rw [polling] at idle
      cases idle
    · simp [sent] at unsent
  receivedOnce := by simp [waiting.received]
  unopened _ := waiting.written
  written := by simp [waiting.absent]
  channel := by simp [waiting.absent]
  finished off := by simp [waiting.on] at off
  awake := by simp [waiting.absent]

theorem Live.idle (live : Live jndn client target max state image arrived file busy) (idle : state.main.idle) :
    busy = none := by
  have main := live.main
  cases busy with
  | none => rfl
  | some index =>
      cases here : state.main <;> rw [here] at main idle <;> first | exact main.elim | cases idle

theorem Live.position_le (live : Live jndn client target max state image arrived file busy) (positive : 1 ≤ max) :
    (file.position : Int) ≤ max := by
  by_contra beyond
  have delivered := live.drains.tracks.delivered (file.position - 1) (by omega)
  have inside := live.drains.bounded _ delivered
  omega

theorem Live.handed_getElem (live : Live jndn client target max state image arrived file busy) {index : Nat}
    {content : Bytes} (handed : state.handed[index]? = some content) : arrived index = some content := by
  have written := congrArg (·[index]?) live.drains.written
  simp only [List.getElem?_map] at written
  rw [show state.written ++ state.fileManager.inHand.toList = state.handed from rfl, handed] at written
  by_cases below : index < file.position
  · simpa [below] using written.symm
  · simp [below] at written

theorem Live.orderly (live : Live jndn client target max state image arrived file busy)
    (reached : (Fetch.system (min client.window max).toNat max.toNat).Reachable image) (opening : 1 ≤ client.window)
    (positive : 1 ≤ max) : Orderly jndn client target max state := by
  have wellFormed := Fetch.wellFormed reached
  have bound := live.bound
  have issued := live.issued
  have members : ∀ index < image.issued, target.segmentName jndn index ∈ state.requested := by
    intro index asked
    rw [live.requested]
    exact List.mem_map_of_mem (List.mem_range.mpr asked)
  have arrivedThen : ∀ index, (arrived index).isSome → index < image.issued := by
    intro index known
    rcases (live.answered index).mp known with answered | handled
    · exact Finset.mem_range.mp (wellFormed.answered answered)
    · exact (Fetch.State.mem_outstanding.mp (live.handling index handled)).1
  have handedLength : state.handed.length = file.position := by
    simpa [State.handed] using congrArg List.length live.drains.written
  constructor
  · rw [live.requested, live.count, ← issued]
    rfl
  · rw [live.requested]
    refine List.Nodup.map_on ?_ List.nodup_range
    intro left leftAsked right rightAsked same
    have leftSmall := live.small (List.mem_range.mp leftAsked)
    have rightSmall := live.small (List.mem_range.mp rightAsked)
    exact Target.segmentName_injective (by omega) (by omega) same
  · intro name asked
    rw [live.requested] at asked
    obtain ⟨index, below, rfl⟩ := List.mem_map.mp asked
    exact ⟨index, live.small (List.mem_range.mp below), rfl⟩
  · intro idle empty index inside
    obtain rfl := live.idle idle
    have none : image.outstanding = ∅ := by
      have sizes := live.face.length
      rw [empty, Option.toFinset_none, Finset.sdiff_empty] at sizes
      exact Finset.card_eq_zero.mp sizes.symm
    have answered : index ∈ image.answered := Fetch.answered_of_idle reached (by omega) none (by omega)
    obtain ⟨content, known⟩ := Option.isSome_iff_exists.mp ((live.answered index).mpr (.inl answered))
    exact ⟨members index (arrivedThen index (known ▸ rfl)), content, (live.received _ _).mpr ⟨index, rfl, known⟩⟩
  · exact live.once
  · intro absent
    simp [live.drains.known] at absent
  · intro opened here
    obtain rfl : file = opened := by simpa [live.drains.known] using here
    refine ⟨handedLength, fun index content handed => ?_⟩
    exact (live.received _ _).mpr ⟨index, rfl, live.handed_getElem handed⟩
  · intro opened here
    obtain rfl : file = opened := by simpa [live.drains.known] using here
    exact live.drains.channel
  · intro off
    obtain ⟨covered, here⟩ := live.drains.stopped off
    have capped := live.position_le positive
    have settled : state.handed = state.written := by
      rcases here with here | here <;> simp [State.handed, here, FileManagerPc.inHand]
    refine ⟨by rw [← settled, handedLength]; omega, fun index inside => members index ?_⟩
    exact arrivedThen index (live.drains.tracks.delivered index (by omega))
  · intro opened here held unfinished permits acquiring
    obtain ⟨all, passed⟩ := held
    obtain rfl : file = opened := by simpa [live.drains.known] using here
    obtain ⟨content, known⟩ := all file.position unfinished
    obtain ⟨index, same, due⟩ := (live.received _ _).mp known
    obtain rfl : file.position = index := by exact_mod_cast same
    have permitted : 0 < state.filePass := by
      rcases live.drains.awake (due ▸ rfl) (by rw [acquiring]; rfl) with permitted | ⟨name, releasing⟩
      · exact permitted
      · exact (passed name releasing).elim
    have granted := live.drains.granted permits acquiring
    exact ⟨permitted, by omega⟩

/-- Every download, for every order of Data and timeouts and every interleaving of its two threads. -/
theorem download_orderly (downloads : Downloads jndn client target) (opening : 1 ≤ client.window) (positive : 1 ≤ max)
    (reached : (client.download jndn target max).Reachable state) : Orderly jndn client target max state := by
  obtain ⟨image, earlier, ⟨waiting, _⟩ | ⟨arrived, file, busy, live, _⟩⟩ :=
    (download_simulates downloads opening positive).reachable reached
  · exact waiting.orderly opening
  · exact live.orderly earlier opening positive

def sampleClient (existing : Option Bytes) : Client where
  namePrefix := "/debit".toList
  window := 2
  fileName := some "a".toList
  localFile _ := existing

def sampleTarget : Target where
  namePrefix := .generic (ascii "debit")
  selector := .generic (ascii "download")
  file := .generic (ascii "a")

theorem downloads_sample (existing : Option Bytes) : Downloads .reference (sampleClient existing) sampleTarget where
  asked := by
    change [Reference.nameOfUri ("/debit".toList ++ "/download/".toList ++ "a".toList)] = _
    decide +kernel
  selected := by decide +kernel

/-- A file of three segments: the count; the second segment, and `FileManager`
finds the first one missing; a timeout of the first, the third and the first
segment; and the rest of `FileManager`. -/
def sampleRun (segment : Nat → Bytes) : List Event :=
  List.replicate 3 (.main none) ++ [.data sampleTarget.name (ascii "3") none,
    .data (sampleTarget.segmentName .reference 1) (segment 1) none, .main none, .fileManager, .fileManager, .main none,
    .timeout (sampleTarget.segmentName .reference 0) none,
    .data (sampleTarget.segmentName .reference 2) (segment 2) none, .main none, .main none,
    .data (sampleTarget.segmentName .reference 0) (segment 0) none, .main none] ++ List.replicate 18 .fileManager

theorem download_orderly_sample :
    ∃ state, (download .reference (sampleClient none) sampleTarget 3).run
        (.initial .reference (sampleClient none)) (sampleRun fun index => [UInt8.ofNat index]) = some state ∧
      state.cont = false ∧ state.written = [[0], [1], [2]] ∧
      Orderly .reference (sampleClient none) sampleTarget 3 state := by
  have completed : ((download .reference (sampleClient none) sampleTarget 3).run
      (.initial .reference (sampleClient none)) (sampleRun fun index => [UInt8.ofNat index])).map
        (fun state => (state.cont, state.written)) = some (false, [[0], [1], [2]]) := by decide +kernel
  obtain ⟨state, ran, shown⟩ := Option.map_eq_some_iff.mp completed
  obtain ⟨off, written⟩ := Prod.mk.inj shown
  exact ⟨state, ran, off, written,
    download_orderly (downloads_sample none) (by decide) (by decide) (System.Reachable.run (.start rfl) ran)⟩

end Ndnperf.Java.Client

import Ndnperf.Library.Fetch
import Ndnperf.Library.Reorder
import Ndnperf.Library.Slots
import Ndnperf.Cxx.Client

namespace Ndnperf.Cxx.Client

open Ndn Library Library.Word Library.Transition Library.Reorder

variable {ndn : NdnCxx} {client : Client} {opens : Bool} {last index : Nat} {Valid : Nat → Data → Prop}
  {state before after : State} {image : Fetch.State} {arrived : Nat → Option Data} {event : Event}
  {pending : Pending} {data : Data}

/-! ## The handlers of a download, one by one -/

section Names

variable (ndn : NdnCxx) (client : Client)

def segmentName (index : Nat) : Name := client.baseName ndn true ++ [ndn.fromSegment index]

/-- The Interest for one segment as the face holds it, with the timeouts it may still suffer. -/
def request (index retries : Nat) : Pending := downloadInterest (client.segmentName ndn index) index retries

end Names

theorem segmentName_injective {left right : Nat} (leftBound : left < 2 ^ 64) (rightBound : right < 2 ^ 64)
    (same : client.segmentName ndn left = client.segmentName ndn right) : left = right := by
  have final := List.append_cancel_left same
  exact ndn.fromSegment_injective leftBound rightBound (List.head_eq_of_cons_eq final)

def State.buffer (state : State) : Buffer Data := { next := state.currentSegment, held := state.pendingSegments }

theorem writePending_eq (rounds : Nat) (state : State) :
    writePending rounds state =
      { state with
        file := (state.buffer.drain rounds).1.foldl (fun file data => file.write data.content) state.file
        currentSegment := (state.buffer.drain rounds).2.next
        pendingSegments := (state.buffer.drain rounds).2.held } := by
  induction rounds generalizing state with
  | zero => rfl
  | succ rounds ih =>
      cases found : state.pendingSegments.lookup state.currentSegment with
      | none =>
          have stuck : state.buffer.deliver = none := by simp [Buffer.deliver, State.buffer, found]
          simp only [writePending, found, Buffer.drain, stuck]
          rfl
      | some data =>
          have delivered : state.buffer.deliver = some (data,
              { next := state.currentSegment + 1, held := state.pendingSegments.erase state.currentSegment }) := by
            simp [Buffer.deliver, State.buffer, found]
          simp only [writePending, found, ih, Buffer.drain, delivered]
          rfl

theorem foldl_write_isOpen (handed : List Data) (file : OfStream) :
    (handed.foldl (fun file data => file.write data.content) file).isOpen = file.isOpen := by
  induction handed generalizing file with
  | nil => rfl
  | cons data rest ih => rw [List.foldl_cons, ih, OfStream.write_isOpen]

theorem foldl_write_written (handed : List Data) (file : OfStream) (opened : file.isOpen = true) :
    (handed.foldl (fun file data => file.write data.content) file).written =
      file.written ++ handed.map Data.content := by
  induction handed generalizing file with
  | nil => simp
  | cons data rest ih =>
      rw [List.foldl_cons, ih _ (by rw [OfStream.write_isOpen, opened]), OfStream.write_written _ _ opened]
      simp

theorem onNack_request (tolerant : client.exitOnNack = false) (downloading : state.download = true)
    (bound : index < 2 ^ 64) (retries : Nat) (now : Int) :
    client.onNack ndn (client.request ndn index retries).interest now state =
      state.express (client.request ndn index 5) := by
  simp [onNack, tolerant, downloading, request, downloadInterest, segmentName,
    ndn.toSegment_fromSegment index bound]

/-- The index survives its trip through an `int`. -/
theorem onTimeoutFile_request (bound : index < 2 ^ 31) {retries : Nat} (left : 0 < retries) :
    handleTimeout (client.request ndn index retries).onTimeout (client.request ndn index retries).interest state =
      state.express (client.request ndn index (retries - 1)) := by
  have narrowed : int32 index = index := int32_of_bounds (by omega) (by omega)
  have widened : uint64 index = index := by rw [uint64_natCast]; omega
  simp [handleTimeout, onTimeoutFile, request, downloadInterest, left, narrowed, widened]

theorem expressFollowing_eq (named : data.name = client.segmentName ndn index) :
    expressFollowing ndn data state =
      if state.currentPacket ≤ state.maxSegment then
        { state.express (client.request ndn state.currentPacket 5) with currentPacket := state.currentPacket + 1 }
      else state := by
  simp [expressFollowing, named, segmentName, request]

/-! ## What holds between two events -/

/-- A running download. `image` says which segments were asked for and
answered, `arrived` which Data answered them. -/
structure Live (ndn : NdnCxx) (client : Client) (opens : Bool) (last : Nat) (Valid : Nat → Data → Prop)
    (state : State) (image : Fetch.State) (arrived : Nat → Option Data) : Prop where
  running : state.status = .running
  downloading : state.download = true
  issued : state.currentPacket = image.issued
  face : Slots.Holds (client.request ndn) state.face image.outstanding
  answered : ∀ index, (arrived index).isSome ↔ index ∈ image.answered
  tracks : state.buffer.Tracks arrived
  stuck : arrived state.currentSegment = none
  unfinished : state.currentSegment ≤ last
  opened : state.file.isOpen = opens
  written : opens = true →
    state.file.written.map some = (List.range state.currentSegment).map fun index => (arrived index).map Data.content
  valid : ∀ index data, arrived index = some data → Valid index data

/-- A download that reached the end: everything up to the last segment is written. -/
structure Completed (opens : Bool) (last : Nat) (Valid : Nat → Data → Prop) (state : State)
    (arrived : Nat → Option Data) : Prop where
  exited : state.status = .exited 0
  finished : last < state.currentSegment
  delivered : ∀ index < state.currentSegment, (arrived index).isSome
  written : opens = true →
    state.file.written.map some = (List.range state.currentSegment).map fun index => (arrived index).map Data.content
  valid : ∀ index data, arrived index = some data → Valid index data

theorem Live.resend (live : Live ndn client opens last Valid state image arrived)
    (inside : index ∈ image.outstanding)
    (taken : Slots.Holds (client.request ndn) (state.settle pending).face (image.outstanding.erase index))
    (retries : Nat) :
    Live ndn client opens last Valid ((state.settle pending).express (client.request ndn index retries)) image
      arrived := by
  have refilled := taken.add (Finset.notMem_erase index _) retries
  rw [Finset.insert_erase inside] at refilled
  exact { live with face := refilled }

theorem store_drain (tracks : state.buffer.Tracks arrived) (fresh : arrived index = none) (data : Data) :
    let stored := state.buffer.store index data
    let drained := stored.drain stored.held.keys.length
    drained.2.Tracks (Function.update arrived index (some data)) ∧
      Function.update arrived index (some data) drained.2.next = none ∧
      state.currentSegment ≤ drained.2.next ∧
      drained.1.map some = (List.range' state.currentSegment (drained.2.next - state.currentSegment)).map
        (Function.update arrived index (some data)) :=
  Buffer.drain_tracks (le_refl _) (tracks.store fresh data)

theorem written_extend {upper lower : Nat} {handed : List Data} {file : OfStream}
    {arrived afterwards : Nat → Option Data} (opened : file.isOpen = true) (ordered : lower ≤ upper)
    (kept : ∀ index < lower, afterwards index = arrived index)
    (written : file.written.map some = (List.range lower).map fun index => (arrived index).map Data.content)
    (drained : handed.map some = (List.range' lower (upper - lower)).map afterwards) :
    (handed.foldl (fun file data => file.write data.content) file).written.map some =
      (List.range upper).map fun index => (afterwards index).map Data.content := by
  have earlier : (List.range lower).map (fun index => (arrived index).map Data.content) =
      (List.range lower).map fun index => (afterwards index).map Data.content :=
    List.map_congr_left fun index member => by rw [kept index (List.mem_range.mp member)]
  have later : handed.map (some ∘ Data.content) =
      (List.range' lower (upper - lower)).map fun index => (afterwards index).map Data.content := by
    have contents := congrArg (List.map (Option.map Data.content)) drained
    rw [List.map_map, List.map_map] at contents
    exact contents
  have whole : List.range upper = List.range lower ++ List.range' lower (upper - lower) := by
    rw [List.range_eq_range', List.range_eq_range']
    have joined := List.range'_append_1 (s := 0) (m := lower) (n := upper - lower)
    rw [Nat.zero_add, Nat.add_sub_cancel' ordered] at joined
    exact joined.symm
  rw [foldl_write_written _ _ opened, List.map_append, List.map_map, written, earlier, later, whole, List.map_append]

theorem onDataFile_eq (reported : data.finalBlock.bind ndn.toSegment = some last) :
    onDataFile ndn index data state =
      let stored := state.buffer.store index data
      let result := stored.drain stored.held.keys.length
      let drained := { state with
        maxSegment := last
        payloadSize := state.payloadSize + data.content.length
        file := result.1.foldl (fun file data => file.write data.content) state.file
        currentSegment := result.2.next
        pendingSegments := result.2.held }
      if last < result.2.next then { drained with file := drained.file.close, status := .exited 0 }
      else expressFollowing ndn data drained := by
  simp only [onDataFile, reported, writePending_eq]
  rfl

theorem Live.receive (live : Live ndn client opens last Valid state image arrived)
    (within : image.answered ⊆ Finset.range image.issued) (inside : index ∈ image.outstanding)
    (taken : Slots.Holds (client.request ndn) (state.settle pending).face (image.outstanding.erase index))
    (named : data.name = client.segmentName ndn index) (reported : data.finalBlock.bind ndn.toSegment = some last)
    (valid : Valid index data) :
    (∃ next, image.answer (last + 1) index = some next ∧
      Live ndn client opens last Valid (onDataFile ndn index data (state.settle pending)) next
        (Function.update arrived index (some data))) ∨
    Completed opens last Valid (onDataFile ndn index data (state.settle pending))
      (Function.update arrived index (some data)) := by
  have fresh : arrived index = none := by
    rw [← Option.not_isSome_iff_eq_none, live.answered]
    exact (Fetch.State.mem_outstanding.mp inside).2
  have validAll := update_valid live.valid valid
  have kept : ∀ earlier < state.currentSegment,
      Function.update arrived index (some data) earlier = arrived earlier := by
    intro earlier delivered
    apply Function.update_of_ne
    intro same
    subst same
    simpa [fresh] using live.tracks.delivered earlier delivered
  obtain ⟨tracks, stuck, ordered, drained⟩ := store_drain live.tracks fresh data
  have written := fun opened : opens = true =>
    written_extend (live.opened.trans opened) ordered kept (live.written opened) drained
  rw [onDataFile_eq reported]
  simp only [show (state.settle pending).buffer = state.buffer from rfl]
  generalize Buffer.drain (state.buffer.store index data).held.keys.length (state.buffer.store index data) =
    result at tracks stuck written
  split
  · rename_i finished
    exact .inr ⟨rfl, finished, tracks.delivered, written, validAll⟩
  · rename_i unfinished
    left
    obtain ⟨next, moved⟩ := Fetch.State.answer_of_mem (last + 1) inside
    obtain ⟨_, issued, answered⟩ := Fetch.State.answer_eq moved
    have outstanding := Fetch.State.answer_outstanding within moved
    have known : ∀ other, (Function.update arrived index (some data) other).isSome ↔ other ∈ next.answered := by
      intro other
      rw [answered, Finset.mem_insert, ← live.answered, isSome_update]
    have opened : (result.1.foldl (fun file data => file.write data.content) state.file).isOpen = opens := by
      rw [foldl_write_isOpen, live.opened]
    refine ⟨next, moved, ?_⟩
    rw [expressFollowing_eq named]
    split
    · rename_i more
      have more : state.currentPacket ≤ last := more
      rw [if_pos (by rw [← live.issued]; omega)] at issued outstanding
      have ahead : image.issued ∉ image.outstanding.erase index := fun member =>
        Fetch.State.issued_notMem_outstanding (Finset.mem_of_mem_erase member)
      refine ⟨live.running, live.downloading, ?_, ?_, known, tracks, stuck, Nat.le_of_not_lt unfinished,
        opened, written, validAll⟩
      · rw [issued, ← live.issued]
        rfl
      · rw [outstanding, ← live.issued]
        exact taken.add (live.issued ▸ ahead) 5
    · rename_i enough
      have enough : ¬state.currentPacket ≤ last := enough
      rw [if_neg (by rw [← live.issued]; omega)] at issued outstanding
      refine ⟨live.running, live.downloading, ?_, ?_, known, tracks, stuck, Nat.le_of_not_lt unfinished,
        opened, written, validAll⟩
      · rw [issued, ← live.issued]
        rfl
      · rw [outstanding]
        exact taken

/-! ## The start and every step -/

theorem expressWindow_eq (downloading : state.download = true) (now : Int) (rounds : Nat) :
    client.expressWindow ndn now rounds state =
      { state with
        face := state.face ++ (List.range' state.currentPacket rounds).map (client.request ndn · 5)
        currentPacket := state.currentPacket + rounds } := by
  induction rounds generalizing state with
  | zero => simp [expressWindow]
  | succ rounds ih =>
      rw [expressWindow, ih (by exact downloading)]
      have total : state.currentPacket + 1 + rounds = state.currentPacket + (rounds + 1) := by omega
      simp only [expressNext, downloading, if_true, State.express, request, segmentName, List.range'_succ,
        List.map_cons, List.append_assoc, List.singleton_append, total]

theorem run_eq (chosen : client.filePath ≠ []) (opens : Bool) (now : Int) :
    client.run ndn opens now .initial =
      { State.initial with
        file := OfStream.closed.openEmpty opens (localName client.filePath)
        download := true
        face := (List.range' 0 client.window).map (client.request ndn · 5)
        currentPacket := client.window } := by
  have named : client.filePath.isEmpty = false := by simpa using chosen
  simp only [run, named, Bool.false_eq_true, if_false]
  rw [expressWindow_eq rfl]
  simp [State.initial]

theorem live_run (chosen : client.filePath ≠ []) (opens : Bool) (now : Int) :
    Live ndn client opens last Valid (client.run ndn opens now .initial)
      { issued := client.window, answered := ∅ } (fun _ => none) := by
  rw [run_eq chosen]
  have opened : ((OfStream.closed).openEmpty opens (localName client.filePath)).isOpen = opens := by
    cases opens <;> rfl
  refine ⟨rfl, rfl, rfl, ?_, by simp, Buffer.tracks_empty, rfl, Nat.zero_le _, opened, ?_, by simp⟩
  · have listed : ∀ index, index ∈ List.range' 0 client.window ↔
        index ∈ Fetch.State.outstanding { issued := client.window, answered := ∅ } := by
      simp [Fetch.State.mem_outstanding]
    exact Slots.holds_map (List.nodup_range' ..) listed fun _ => 5
  · intro allowed
    subst allowed
    rfl

/-- What the runs below allow: every Data reports the same last segment,
Nacks are tolerated and timeouts have retries left. -/
def Cooperative (ndn : NdnCxx) (client : Client) (last : Nat) : Event → Prop
  | .data _ data _ => data.finalBlock.bind ndn.toSegment = some last
  | .nack _ _ => client.exitOnNack = false
  | .timeout pending => 0 < pending.onTimeout.retries
  | .timer => True

instance (event : Event) : Decidable (Cooperative ndn client last event) :=
  match event with
  | .data _ _ _ => inferInstanceAs (Decidable (_ = _))
  | .nack _ _ => inferInstanceAs (Decidable (_ = _))
  | .timeout _ => inferInstanceAs (Decidable (_ < _))
  | .timer => inferInstanceAs (Decidable True)

/-- A Data is what its name promises, for every name the client can ask for. -/
def Delivers (ndn : NdnCxx) (client : Client) (last : Nat) (Valid : Nat → Data → Prop) : Event → Prop
  | .data _ data _ =>
      ∀ index < max client.window (last + 1), data.name = client.segmentName ndn index → Valid index data
  | _ => True

theorem live_step (live : Live ndn client opens last Valid before image arrived)
    (wellFormed : Fetch.WellFormed client.window (last + 1) image)
    (window : client.window ≤ 2 ^ 31) (size : last + 1 ≤ 2 ^ 31)
    (cooperative : Cooperative ndn client last event) (delivers : Delivers ndn client last Valid event)
    (moved : client.step ndn before event = some after) :
    (∃ arrived, Live ndn client opens last Valid after image arrived) ∨
    (∃ index next arrived, image.answer (last + 1) index = some next ∧
      Live ndn client opens last Valid after next arrived) ∨
    ∃ arrived, Completed opens last Valid after arrived := by
  have asked : ∀ index ∈ image.outstanding, index < max client.window (last + 1) := fun index inside =>
    Nat.lt_of_lt_of_le (Fetch.State.mem_outstanding.mp inside).1 wellFormed.bounded
  have small : ∀ index ∈ image.outstanding, index < 2 ^ 31 := by
    intro index inside
    have below := asked index inside
    omega
  simp only [step, live.running, if_true] at moved
  cases event with
  | data pending data now =>
      simp only [Option.ite_none_right_eq_some, Option.some.injEq] at moved
      obtain ⟨⟨member, named⟩, rfl⟩ := moved
      obtain ⟨index, inside, retries, rfl, taken⟩ := live.face.take member
      have valid := delivers index (asked index inside) named
      rcases live.receive wellFormed.answered inside taken named cooperative valid with
        ⟨next, answered, alive⟩ | completed
      · exact .inr (.inl ⟨index, next, _, answered, alive⟩)
      · exact .inr (.inr ⟨_, completed⟩)
  | nack pending now =>
      simp only [Option.ite_none_right_eq_some, Option.some.injEq] at moved
      obtain ⟨member, rfl⟩ := moved
      obtain ⟨index, inside, retries, rfl, taken⟩ := live.face.take member
      have bound := small index inside
      rw [onNack_request cooperative (by exact live.downloading) (by omega)]
      exact .inl ⟨arrived, live.resend inside taken 5⟩
  | timeout pending =>
      simp only [Option.ite_none_right_eq_some, Option.some.injEq] at moved
      obtain ⟨member, rfl⟩ := moved
      obtain ⟨index, inside, retries, rfl, taken⟩ := live.face.take member
      have left : 0 < retries := cooperative
      rw [onTimeoutFile_request (small index inside) left]
      exact .inl ⟨arrived, live.resend inside taken (retries - 1)⟩
  | timer =>
      simp only [live.downloading, if_true, Option.some.injEq] at moved
      subst moved
      exact .inl ⟨arrived, { live with }⟩

/-! ## Every run -/

def download (ndn : NdnCxx) (client : Client) (opens : Bool) (last : Nat) : System State Event :=
  (client.system ndn opens).guarded fun _ => Cooperative ndn client last

/-- A download simulates the abstract window of requests until it is complete. -/
theorem download_simulates (chosen : client.filePath ≠ []) (window : client.window ≤ 2 ^ 31)
    (size : last + 1 ≤ 2 ^ 31) :
    System.Simulation (client.download ndn opens last) (Fetch.system client.window (last + 1))
      fun state image => (∃ arrived, Live ndn client opens last (fun _ _ => True) state image arrived) ∨
        state.status = .exited 0 := by
  constructor
  · intro state held
    obtain ⟨now, rfl⟩ := held
    exact ⟨_, rfl, .inl ⟨_, live_run chosen opens now⟩⟩
  · rintro before event after image earlier (⟨arrived, live⟩ | exited) moved <;>
      obtain ⟨cooperative, moved⟩ := System.guarded_step.mp moved
    · have delivers : Delivers ndn client last (fun _ _ => True) event := by cases event <;> simp [Delivers]
      rcases live_step live (Fetch.wellFormed earlier) window size cooperative delivers moved with
        same | ⟨index, next, arrived, answered, alive⟩ | ⟨arrived, completed⟩
      · exact .inl (.inl same)
      · exact .inr ⟨index, next, answered, .inl ⟨arrived, alive⟩⟩
      · exact .inl (.inr completed.exited)
    · simp [system, step, exited] at moved

def State.interestsFor (ndn : NdnCxx) (client : Client) (state : State) (index : Nat) : Nat :=
  state.face.countP (·.interest.name = client.segmentName ndn index)

/-- Between two events of a running download every segment asked for so far is
written, buffered or outstanding, and only one of these. -/
structure Partition (ndn : NdnCxx) (client : Client) (opens : Bool) (state : State) : Prop where
  written : opens = true → state.file.written.length = state.currentSegment
  asked : state.currentSegment ≤ state.currentPacket
  buffered : ∀ index ∈ state.pendingSegments, state.currentSegment ≤ index ∧ index < state.currentPacket
  outstanding : ∀ index < state.currentPacket, state.interestsFor ndn client index =
    if index < state.currentSegment ∨ index ∈ state.pendingSegments then 0 else 1
  sound : ∀ pending ∈ state.face, ∃ index < state.currentPacket, pending.interest.name = client.segmentName ndn index
  windowed : state.face.length ≤ client.window
  inFlight : state.face ≠ []

theorem Live.partition (live : Live ndn client opens last Valid state image arrived)
    (reached : (Fetch.system client.window (last + 1)).Reachable image) (positive : 1 ≤ client.window)
    (window : client.window ≤ 2 ^ 31) (size : last + 1 ≤ 2 ^ 31) : Partition ndn client opens state := by
  have wellFormed := Fetch.wellFormed reached
  have small : ∀ index < state.currentPacket, index < 2 ^ 64 := by
    have bounded := wellFormed.bounded
    have issued := live.issued
    omega
  have answered : ∀ index, index ∈ image.answered ↔ index < state.currentSegment ∨ index ∈ state.pendingSegments := by
    intro index
    have held := live.tracks.mem_held index
    have delivered := live.tracks.delivered index
    simp only [State.buffer] at held delivered
    rw [held, ← live.answered]
    by_cases early : index < state.currentSegment
    · simp [delivered early, early]
    · simp [early, Nat.le_of_not_lt early]
  have inside : ∀ index ∈ image.answered, index < state.currentPacket := fun index member =>
    live.issued ▸ Finset.mem_range.mp (wellFormed.answered member)
  refine ⟨?_, ?_, ?_, ?_, ?_, ?_, ?_⟩
  · intro opened
    simpa using congrArg List.length (live.written opened)
  · by_contra ahead
    exact Nat.lt_irrefl _ (inside _ ((answered state.currentPacket).mpr (.inl (by omega))))
  · intro index member
    have held := (live.tracks.mem_held index).mp member
    exact ⟨held.1, inside index ((answered index).mpr (.inr member))⟩
  · intro index below
    have counted := live.face.count (·.interest.name) (client.segmentName ndn) (fun _ _ => rfl) index
      fun other member same => segmentName_injective
        (small other (live.issued ▸ (Fetch.State.mem_outstanding.mp member).1)) (small index below) same
    have unanswered : index ∈ image.outstanding ↔
        ¬(index < state.currentSegment ∨ index ∈ state.pendingSegments) := by
      rw [Fetch.State.mem_outstanding, answered, ← live.issued]
      exact and_iff_right below
    rw [State.interestsFor, counted]
    simp only [unanswered, ite_not]
  · intro pending member
    obtain ⟨index, outstanding, retries, rfl⟩ := live.face.mem member
    exact ⟨index, live.issued ▸ (Fetch.State.mem_outstanding.mp outstanding).1, rfl⟩
  · rw [live.face.length]
    exact Fetch.outstanding_card_le reached
  · have missing : state.currentSegment ∉ image.answered := by simp [← live.answered, live.stuck]
    have nonempty := Fetch.outstanding_nonempty reached positive (Nat.lt_succ_of_le live.unfinished) missing
    rw [← List.length_pos_iff, live.face.length]
    exact Finset.card_pos.mpr nonempty

/-- A download that has not exited never loses a segment, never asks twice for
one and never waits with nothing in flight. -/
theorem download_partition (chosen : client.filePath ≠ []) (positive : 1 ≤ client.window)
    (window : client.window ≤ 2 ^ 31) (size : last + 1 ≤ 2 ^ 31)
    (reached : (client.download ndn opens last).Reachable state) (waiting : ∀ code, state.status ≠ .exited code) :
    Partition ndn client opens state := by
  obtain ⟨image, earlier, ⟨arrived, live⟩ | exited⟩ := (download_simulates chosen window size).reachable reached
  · exact live.partition earlier positive window size
  · exact (waiting 0 exited).elim

def sampleClient : Client where
  namePrefix := [.generic (ascii "throughput")]
  window := 2
  filePath := ascii "a"
  exitOnNack := false

/-- The Data of a segment of a file with the segments 0 to 4. -/
def sampleSegment (index : Nat) : Data where
  name := sampleClient.segmentName .reference index
  freshnessPeriod := 0
  content := [UInt8.ofNat index]
  finalBlock := some (NdnCxx.reference.fromSegment 4)

/-- Segments 1 and 0 arrive, the Interest of segment 3 has a setback, and then
its Data overtakes that of segment 2, whose Interest meets a Nack. -/
def sampleOrder : List Event :=
  [.data (sampleClient.request .reference 1 5) (sampleSegment 1) 0,
    .data (sampleClient.request .reference 0 5) (sampleSegment 0) 0, .timeout (sampleClient.request .reference 3 5),
    .data (sampleClient.request .reference 3 4) (sampleSegment 3) 0, .nack (sampleClient.request .reference 2 5) 0]

/-- Two segments are written, one is buffered and two are outstanding. -/
theorem download_partition_sample :
    ∃ state, (sampleClient.download .reference true 4).run (sampleClient.run .reference true 0 .initial) sampleOrder =
        some state ∧
      state.currentSegment = 2 ∧ state.currentPacket = 5 ∧ state.pendingSegments.keys = [3] ∧ state.face.length = 2 ∧
      Partition .reference sampleClient true state := by
  have ran : ((sampleClient.download .reference true 4).run (sampleClient.run .reference true 0 .initial)
      sampleOrder).map (fun state => (state.status, state.currentSegment, state.currentPacket,
        state.pendingSegments.keys, state.face.length)) = some (.running, 2, 5, [3], 2) := by decide +kernel
  obtain ⟨state, ran, same⟩ := Option.map_eq_some_iff.mp ran
  simp only [Prod.mk.injEq] at same
  obtain ⟨running, segment, packet, buffered, outstanding⟩ := same
  have reached : (sampleClient.download .reference true 4).Reachable state := .run (.start ⟨0, rfl⟩) ran
  refine ⟨state, ran, segment, packet, buffered, outstanding, ?_⟩
  exact download_partition (by decide) (by decide) (by decide) (by decide) reached fun code exited => by
    simp [running] at exited

end Ndnperf.Cxx.Client

import Mathlib.Data.Finset.Option
import Ndnperf.Library.Fetch
import Ndnperf.Library.Slots
import Ndnperf.Java.FileManager

namespace Ndnperf.Java.Client

open Ndn Library Library.Transition

/-- The three components of the name of a download. -/
structure Target where
  namePrefix : Component
  selector : Component
  file : Component
deriving DecidableEq, Repr

namespace Target

variable (target : Target)

def name : Name := [target.namePrefix, target.selector, target.file]

def segmentName (jndn : Jndn) (index : Nat) : Name := target.name ++ [jndn.fromSegment index]

def existing (jndn : Jndn) (client : Client) : Bytes :=
  (client.localFile (jndn.toEscapedString target.file)).getD []

end Target

variable {jndn : Jndn} {client : Client} {target : Target} {max : Int} {state before after : State} {file : PendingFile}
  {image : Fetch.State} {arrived : Nat → Option Bytes} {busy : Option Nat} {index : Nat} {content : Bytes}
  {event : Event} {name : Name}

/-- A client that downloads, with one component each for the prefix and the file. -/
structure Downloads (jndn : Jndn) (client : Client) (target : Target) : Prop where
  asked : client.interests jndn = [target.name]
  selected : jndn.toEscapedString target.selector = "download".toList

theorem Target.segmentName_injective {left right : Nat} (leftBound : (left : Int) < 2 ^ 63)
    (rightBound : (right : Int) < 2 ^ 63) (same : target.segmentName jndn left = target.segmentName jndn right) :
    left = right := by
  have final := congrArg jndn.toSegment (List.head_eq_of_cons_eq (List.append_cancel_left same))
  rw [jndn.toSegment_fromSegment left (by omega) leftBound, jndn.toSegment_fromSegment right (by omega) rightBound,
    Option.some.injEq] at final
  exact_mod_cast final

/-! ## The callbacks of a download -/

/-- The prefix and the file leave the second component to tell the handlers apart. -/
theorem onData_download (downloads : Downloads jndn client target) {rest : Name}
    (known : jndn.toUri (target.name ++ rest) ∈ state.pendingInterests) (throwsAt : Option Failure) :
    client.onData jndn (target.name ++ rest) content throwsAt state =
      client.nextDownloadInterest jndn (target.name ++ rest) content throwsAt
        { state with retryTable := Function.update state.retryTable (jndn.toUri (target.name ++ rest)) none } := by
  have different : "download".toList ≠ "benchmark".toList := by decide
  simp only [onData, known, if_true]
  simp only [Target.name, List.cons_append, List.nil_append, List.getElem?_cons_succ, List.getElem?_cons_zero,
    Option.map_some, downloads.selected, different, if_false, if_true]

theorem onData_segment (downloads : Downloads jndn client target) (bound : (index : Int) < 2 ^ 63)
    (known : jndn.toUri (target.segmentName jndn index) ∈ state.pendingInterests)
    (opened : state.pendingFile = some file) (throwsAt : Option Failure) :
    client.onData jndn (target.segmentName jndn index) content throwsAt state =
      { state with
        retryTable := Function.update state.retryTable (jndn.toUri (target.segmentName jndn index)) none
        main := .release (target.segmentName jndn index)
        pendingFile := some (file.put index content)
        received := state.received ++ [((index : Int), content)] } := by
  have segment := jndn.toSegment_fromSegment index (by omega) bound
  rw [Target.segmentName, onData_download downloads known]
  simp only [Target.name, List.cons_append, List.nil_append, nextDownloadInterest, segment, opened]

theorem onData_count (downloads : Downloads jndn client target) (positive : 1 ≤ max)
    (known : jndn.toUri target.name ∈ state.pendingInterests) (parsed : parseLong (jndn.blobText content) = some max) :
    client.onData jndn target.name content none state =
      expressSegments jndn target.name (min state.next max).toNat
        { state with
          retryTable := Function.update state.retryTable (jndn.toUri target.name) none
          max
          pendingFile := some (.new (client.localFile (jndn.toEscapedString target.file)) max) } := by
  have counted : ¬max ≤ 0 := by omega
  rw [← List.append_nil target.name] at known
  rw [← List.append_nil target.name, onData_download downloads known, List.append_nil]
  simp only [Target.name, nextDownloadInterest, parsed, counted, if_false]
  rfl

theorem expressSegments_eq (base : Name) (rounds : Nat) (state : State) :
    expressSegments jndn base rounds state =
      let names := (List.range rounds).map fun segment : Nat => base ++ [jndn.fromSegment segment]
      { state with
        face := state.face ++ names
        pendingInterests := state.pendingInterests ∪ (names.map jndn.toUri).toFinset
        requested := state.requested ++ names } := by
  induction rounds with
  | zero => simp [expressSegments]
  | succ rounds ih =>
      simp [expressSegments, ih, State.request, State.express, List.range_succ, Finset.union_comm]

theorem requestNext_segment (state : State) :
    requestNext jndn (target.segmentName jndn index) none state =
      let following := target.name ++ [jndn.fromSegment state.next]
      let counted := { state with main := .events, next := state.next + 1 }
      if state.next < state.max then counted.request jndn following
      else { counted with pendingInterests := insert (jndn.toUri following) counted.pendingInterests } := by
  simp only [requestNext, Int.add_one_le_iff]
  rfl

theorem onTimeout_retry (left : 0 < state.retries jndn name) :
    onTimeout jndn name none state =
      { state.express jndn name with
        retryTable := Function.update state.retryTable (jndn.toUri name) (some (state.retries jndn name - 1)) } := by
  simp [onTimeout, left, State.express]

/-! ## Before the number of segments is known -/

/-- The Interest for the number of segments is in the queue or on the face, and
`FileManager` waits for its first permit. -/
structure Waiting (jndn : Jndn) (client : Client) (target : Target) (state : State) : Prop where
  alive : state.exited = false
  on : state.cont = true
  begun : state.main = .poll ∧ state.iQueue = [target.name] ∧ state.face = [] ∨
    (state.main = .poll ∨ state.main = .loop ∨ state.main = .events) ∧ state.iQueue = [] ∧ state.face = [target.name] ∧
      jndn.toUri target.name ∈ state.pendingInterests
  fileManager : state.fileManager = .loop ∨ state.fileManager = .available ∨ state.fileManager = .acquire 1
  absent : state.pendingFile = none
  passes : state.filePass = 0
  next : state.next = client.window
  max : state.max = 0
  requested : state.requested = []
  received : state.received = []
  written : state.written = []

theorem waiting_initial (downloads : Downloads jndn client target) :
    Waiting jndn client target (.initial jndn client) where
  alive := rfl
  on := rfl
  begun := .inl ⟨rfl, downloads.asked, rfl⟩
  fileManager := .inl rfl
  absent := rfl
  passes := rfl
  next := rfl
  max := rfl
  requested := rfl
  received := rfl
  written := rfl

theorem Waiting.mainStep (waiting : Waiting jndn client target before)
    (moved : Client.mainStep jndn none before = some after) : Waiting jndn client target after := by
  rcases waiting.begun with ⟨here, queued, unsent⟩ | ⟨here | here | here, queued, sent, known⟩
  · simp only [Client.mainStep, here, queued, Option.some.injEq] at moved
    subst moved
    refine { waiting with begun := .inr ⟨.inl rfl, rfl, ?_, Finset.mem_insert_self _ _⟩ }
    simp [State.express, unsent]
  · simp only [Client.mainStep, here, queued, Option.some.injEq] at moved
    subst moved
    exact { waiting with begun := .inr ⟨.inr (.inl rfl), rfl, sent, known⟩ }
  · simp only [Client.mainStep, here, waiting.on, if_true, Option.some.injEq] at moved
    subst moved
    exact { waiting with on := rfl, begun := .inr ⟨.inr (.inr rfl), queued, sent, known⟩ }
  · simp only [Client.mainStep, here, Option.some.injEq] at moved
    subst moved
    exact { waiting with begun := .inr ⟨.inr (.inl rfl), queued, sent, known⟩ }

theorem Waiting.fileManagerStep (waiting : Waiting jndn client target before)
    (moved : Client.fileManagerStep before = some after) : Waiting jndn client target after := by
  rcases waiting.fileManager with here | here | here
  · simp only [Client.fileManagerStep, here, waiting.on, if_true, Option.some.injEq] at moved
    subst moved
    exact { waiting with fileManager := .inr (.inl rfl) }
  · simp only [Client.fileManagerStep, here, waiting.passes, Nat.lt_irrefl, if_false, Option.some.injEq] at moved
    subst moved
    exact { waiting with fileManager := .inr (.inr rfl) }
  · simp [Client.fileManagerStep, here, waiting.passes] at moved

theorem Waiting.sent (waiting : Waiting jndn client target state) (here : state.main = .events) :
    state.face = [target.name] ∧ jndn.toUri target.name ∈ state.pendingInterests := by
  rcases waiting.begun with ⟨polling, _⟩ | ⟨_, _, sent, known⟩
  · rw [here] at polling
    cases polling
  · exact ⟨sent, known⟩

theorem Waiting.timeout (waiting : Waiting jndn client target before) (here : before.main = .events)
    (member : name ∈ before.face) (left : 0 < before.retries jndn name) :
    Waiting jndn client target (onTimeout jndn name none (before.settle name)) := by
  obtain ⟨sent, known⟩ := waiting.sent here
  obtain rfl : name = target.name := by simpa [sent] using member
  rw [onTimeout_retry (by exact left)]
  refine { waiting with begun := .inr ⟨.inr (.inr here), ?_, ?_, Finset.mem_insert_self _ _⟩ }
  · rcases waiting.begun with ⟨polling, _⟩ | ⟨_, queued, _⟩
    · rw [here] at polling
      cases polling
    · exact queued
  · simp [State.express, State.settle, sent]

/-! ## Once it is known -/

/-- Where the main thread is, with the segment whose Data it is handling. -/
def MainAt (jndn : Jndn) (target : Target) : MainPc → Option Nat → Prop
  | .loop, none | .events, none | .ended, none => True
  | .release name, some index | .request name, some index => name = target.segmentName jndn index
  | _, _ => False

/-- A download whose number of segments is known. `image` says which segments
were asked for and which of them led to the next request; `busy` is the one in between. -/
structure Live (jndn : Jndn) (client : Client) (target : Target) (max : Int) (state : State) (image : Fetch.State)
    (arrived : Nat → Option Bytes) (file : PendingFile) (busy : Option Nat) : Prop where
  alive : state.exited = false
  bound : max < 2 ^ 63
  count : state.max = max
  main : MainAt jndn target state.main busy
  issued : (image.issued : Int) = min state.next max
  handling : ∀ index ∈ busy, index ∈ image.outstanding
  face : Slots.Holds (fun index (_ : Unit) => target.segmentName jndn index) state.face
    (image.outstanding \ busy.toFinset)
  known : ∀ name ∈ state.face, jndn.toUri name ∈ state.pendingInterests
  requested : state.requested = (List.range image.issued).map (target.segmentName jndn)
  answered : ∀ index, (arrived index).isSome ↔ index ∈ image.answered ∨ index ∈ busy
  received : ∀ segment content,
    (segment, content) ∈ state.received ↔ ∃ index : Nat, segment = index ∧ arrived index = some content
  once : (state.received.map Prod.fst).Nodup
  drains : Draining max (target.existing jndn client) arrived state file

theorem Live.small (live : Live jndn client target max state image arrived file busy) (below : index < image.issued) :
    (index : Int) < max := by
  have issued := live.issued
  omega

theorem Waiting.drains (waiting : Waiting jndn client target before)
    (known : after.pendingFile = some (.new (client.localFile (jndn.toEscapedString target.file)) max))
    (same : after.fileManager = before.fileManager) (written : after.written = before.written)
    (cont : after.cont = before.cont) :
    Draining max (target.existing jndn client) (fun _ => none) after
      (.new (client.localFile (jndn.toEscapedString target.file)) max) where
  known := known
  tracks := Reorder.Tracks.empty
  size := rfl
  bounded := by simp
  found := by
    rw [same]
    rcases waiting.fileManager with here | here | here <;> rw [here] <;> trivial
  written := by
    rw [same, written, waiting.written]
    rcases waiting.fileManager with here | here | here <;> rw [here] <;> rfl
  channel := by
    rw [written, waiting.written]
    exact Channel.wrote_openFile _
  opened closed := by simp [PendingFile.new, Channel.openFile] at closed
  stopped off := by simp [cont, waiting.on] at off
  finished ending := by
    rw [same] at ending
    rcases waiting.fileManager with here | here | here <;> rw [here] at ending <;> cases ending
  granted permits here := by
    rw [same] at here
    rcases waiting.fileManager with reached | reached | reached <;> rw [reached] at here <;> cases here
    exact .inl rfl
  awake due := by simp at due

theorem Waiting.count (downloads : Downloads jndn client target) (waiting : Waiting jndn client target state)
    (here : state.main = .events) (opening : 1 ≤ client.window) (positive : 1 ≤ max)
    (parsed : parseLong (jndn.blobText content) = some max) :
    ∃ file, Live jndn client target max (client.onData jndn target.name content none (state.settle target.name))
      { issued := (min client.window max).toNat, answered := ∅ } (fun _ => none) file none := by
  obtain ⟨sent, known⟩ := waiting.sent here
  have limit : min (state.settle target.name).next max = min client.window max := by rw [← waiting.next]; rfl
  have cleared : (state.settle target.name).face = [] := by simp [State.settle, sent]
  have listed : ∀ index, index ∈ List.range (min client.window max).toNat ↔
      index ∈ Fetch.State.outstanding { issued := (min client.window max).toNat, answered := ∅ } \
        (none : Option Nat).toFinset := by
    simp [Fetch.State.mem_outstanding]
  rw [onData_count downloads positive (by exact known) parsed, expressSegments_eq, limit]
  refine ⟨.new (client.localFile (jndn.toEscapedString target.file)) max,
    ⟨waiting.alive, parseLong_lt parsed, rfl, ?_, ?_, nofun, ?_, ?_, ?_, by simp, ?_, ?_, ?_⟩⟩
  · simp only [State.settle, here]
    trivial
  · simp only [State.settle, waiting.next]
    omega
  · simp only [cleared, List.nil_append]
    exact Slots.holds_map List.nodup_range listed fun _ => ()
  · intro name asked
    simp only [cleared, List.nil_append] at asked
    exact Finset.mem_union_right _ (List.mem_toFinset.mpr (List.mem_map_of_mem asked))
  · simp only [State.settle, waiting.requested, List.nil_append]
    rfl
  · simp [State.settle, waiting.received]
  · simp [State.settle, waiting.received]
  · exact waiting.drains rfl rfl rfl rfl

theorem Live.data (downloads : Downloads jndn client target)
    (live : Live jndn client target max before image arrived file busy) (here : before.main = .events)
    (member : name ∈ before.face) (content : Bytes) :
    ∃ index ∈ image.outstanding, name = target.segmentName jndn index ∧
      Live jndn client target max (client.onData jndn name content none (before.settle name)) image
        (Function.update arrived index (some content)) (file.put index content) (some index) := by
  have main := live.main
  rw [here] at main
  obtain rfl : busy = none := by
    cases busy with
    | none => rfl
    | some _ => exact main.elim
  have face := live.face
  rw [Option.toFinset_none, Finset.sdiff_empty] at face
  obtain ⟨index, inside, ⟨⟩, rfl, taken⟩ := face.take member
  obtain ⟨below, unanswered⟩ := Fetch.State.mem_outstanding.mp inside
  have small := live.small below
  have bound := live.bound
  have fresh : arrived index = none := by
    rw [← Option.not_isSome_iff_eq_none, live.answered]
    simpa using unanswered
  refine ⟨index, inside, rfl, ?_⟩
  have known : jndn.toUri (target.segmentName jndn index) ∈
      (before.settle (target.segmentName jndn index)).pendingInterests := live.known _ member
  have opened : (before.settle (target.segmentName jndn index)).pendingFile = some file := live.drains.known
  rw [onData_segment downloads (by omega) known opened]
  refine ⟨live.alive, live.bound, live.count, rfl, live.issued, ?_, ?_, ?_, live.requested, ?_, ?_, ?_, ?_⟩
  · intro other handled
    exact Option.some.inj handled ▸ inside
  · rw [Option.toFinset_some, Finset.sdiff_singleton_eq_erase]
    exact taken
  · intro name kept
    exact live.known name (List.mem_of_mem_erase kept)
  · intro other
    rw [Reorder.isSome_update, live.answered]
    simp only [Option.mem_def, reduceCtorEq, or_false, Option.some.injEq]
    exact ⟨fun either => either.symm.imp_right Eq.symm, fun either => either.symm.imp_left Eq.symm⟩
  · intro segment stored
    change (segment, stored) ∈ before.received ++ [((index : Int), content)] ↔ _
    rw [List.mem_append, live.received, List.mem_singleton, Prod.mk.injEq]
    constructor
    · intro held
      rcases held with ⟨other, rfl, earlier⟩ | ⟨rfl, rfl⟩
      · refine ⟨other, rfl, ?_⟩
        have different : other ≠ index := by
          intro same
          subst same
          simp [fresh] at earlier
        rw [Function.update_of_ne different, earlier]
      · exact ⟨index, rfl, Function.update_self ..⟩
    · intro held
      obtain ⟨other, rfl, known⟩ := held
      by_cases same : other = index
      · subst same
        rw [Function.update_self, Option.some.injEq] at known
        exact .inr ⟨rfl, known.symm⟩
      · rw [Function.update_of_ne same] at known
        exact .inl ⟨other, rfl, known⟩
  · rw [List.map_append, List.nodup_append]
    refine ⟨live.once, List.nodup_singleton _, ?_⟩
    intro _ earlier segment latest same
    subst same
    obtain ⟨⟨_, stored⟩, known, rfl⟩ := List.mem_map.mp earlier
    obtain ⟨other, rfl, arrivedThen⟩ := (live.received _ stored).mp known
    obtain rfl : other = index := by simpa using latest
    simp [fresh] at arrivedThen
  · exact live.drains.put fresh small rfl rfl rfl rfl rfl rfl

theorem Live.timeout (live : Live jndn client target max before image arrived file busy) (here : before.main = .events)
    (member : name ∈ before.face) (left : 0 < before.retries jndn name) :
    Live jndn client target max (onTimeout jndn name none (before.settle name)) image arrived file busy := by
  obtain ⟨index, inside, ⟨⟩, rfl, taken⟩ := live.face.take member
  have refilled := taken.add (Finset.notMem_erase index _) ()
  rw [Finset.insert_erase inside] at refilled
  rw [onTimeout_retry (by exact left)]
  exact { live with
    face := refilled
    known := fun name kept => by
      rcases List.mem_append.mp kept with kept | resent
      · exact Finset.mem_insert_of_mem (live.known name (List.mem_of_mem_erase kept))
      · rw [List.mem_singleton.mp resent]
        exact Finset.mem_insert_self _ _
    drains := live.drains.frame rfl rfl rfl rfl (le_refl _) fun _ releasing => by
      rw [here] at releasing
      cases releasing }

theorem Live.fileManagerStep (live : Live jndn client target max before image arrived file busy)
    (moved : Client.fileManagerStep before = some after) :
    ∃ next, Live jndn client target max after image arrived next busy := by
  obtain ⟨next, drains⟩ := live.drains.fileManagerStep moved
  obtain ⟨fileManager, pendingFile, filePass, cont, written, rfl⟩ := fileManagerStep_frame moved
  exact ⟨next, { live with drains }⟩

theorem Live.request (live : Live jndn client target max before image arrived file (some index))
    (within : image.answered ⊆ Finset.range image.issued)
    (here : before.main = .request (target.segmentName jndn index)) :
    ∃ next, image.answer max.toNat index = some next ∧
      Live jndn client target max (requestNext jndn (target.segmentName jndn index) none before) next arrived file
        none := by
  have inside := live.handling index rfl
  obtain ⟨next, moved⟩ := Fetch.State.answer_of_mem max.toNat inside
  obtain ⟨_, issued, answered⟩ := Fetch.State.answer_eq moved
  have outstanding := Fetch.State.answer_outstanding within moved
  have known : ∀ other, (arrived other).isSome ↔ other ∈ next.answered ∨ other ∈ (none : Option Nat) := by
    intro other
    rw [live.answered, answered, Finset.mem_insert]
    simp only [Option.mem_def, Option.some.injEq, reduceCtorEq, or_false]
    exact ⟨fun either => either.symm.imp_left Eq.symm, fun either => either.symm.imp_right Eq.symm⟩
  have face := live.face
  rw [Option.toFinset_some, Finset.sdiff_singleton_eq_erase] at face
  have frame : ∀ {after : State}, after.pendingFile = before.pendingFile → after.fileManager = before.fileManager →
      after.written = before.written → after.cont = before.cont → after.filePass = before.filePass →
      Draining max (target.existing jndn client) arrived after file := by
    intro after known same written cont passes
    refine live.drains.frame known same written cont (Nat.le_of_eq passes.symm) fun name releasing => ?_
    rw [here] at releasing
    cases releasing
  have total := live.issued
  have count := live.count
  refine ⟨next, moved, ?_⟩
  rw [requestNext_segment]
  simp only
  split
  · rename_i more
    have current : before.next = image.issued := by omega
    rw [if_pos (by omega)] at issued outstanding
    have ahead : image.issued ∉ image.outstanding.erase index := fun member =>
      Fetch.State.issued_notMem_outstanding (Finset.mem_of_mem_erase member)
    refine ⟨live.alive, live.bound, live.count, trivial, ?_, by simp, ?_, ?_, ?_, known, live.received, live.once,
      frame rfl rfl rfl rfl rfl⟩
    · simp only [State.request, State.express, issued]
      omega
    · rw [Option.toFinset_none, Finset.sdiff_empty, outstanding]
      simp only [State.request, State.express, current]
      exact face.add ahead ()
    · intro name asked
      rcases List.mem_append.mp asked with earlier | latest
      · exact Finset.mem_insert_of_mem (live.known name earlier)
      · rw [List.mem_singleton.mp latest]
        exact Finset.mem_insert_self _ _
    · simp only [State.request, State.express, live.requested, issued, List.range_succ, List.map_append, current]
      rfl
  · rename_i enough
    rw [if_neg (by omega)] at issued outstanding
    refine ⟨live.alive, live.bound, live.count, trivial, ?_, by simp, ?_, ?_, ?_, known, live.received, live.once,
      frame rfl rfl rfl rfl rfl⟩
    · simp only [issued]
      omega
    · rw [Option.toFinset_none, Finset.sdiff_empty, outstanding]
      exact face
    · exact fun name asked => Finset.mem_insert_of_mem (live.known name asked)
    · rw [issued]
      exact live.requested

/-- One step of the main thread; only the last one of a segment asks for another. -/
theorem Live.mainStep (live : Live jndn client target max before image arrived file busy)
    (within : image.answered ⊆ Finset.range image.issued) (moved : Client.mainStep jndn none before = some after) :
    Live jndn client target max after image arrived file busy ∨
      ∃ index next, image.answer max.toNat index = some next ∧
        Live jndn client target max after next arrived file none := by
  have main := live.main
  cases here : before.main with
  | poll =>
      rw [here] at main
      cases busy <;> exact main.elim
  | loop =>
      rw [here] at main
      simp only [Client.mainStep, here, Option.some.injEq] at moved
      subst moved
      refine .inl { live with main := ?_, drains := live.drains.frame rfl rfl rfl rfl (le_refl _) (by simp [here]) }
      cases busy with
      | none => split <;> trivial
      | some _ => exact main.elim
  | events =>
      rw [here] at main
      simp only [Client.mainStep, here, Option.some.injEq] at moved
      subst moved
      refine .inl { live with main := ?_, drains := live.drains.frame rfl rfl rfl rfl (le_refl _) (by simp [here]) }
      cases busy with
      | none => trivial
      | some _ => exact main.elim
  | release name =>
      rw [here] at main
      simp only [Client.mainStep, here, Option.some.injEq] at moved
      subst moved
      exact .inl { live with
        main := by
          cases busy with
          | none => exact main.elim
          | some _ => exact main
        drains := live.drains.frame rfl rfl rfl rfl (Nat.le_succ _) fun _ _ => Nat.lt_succ_self _ }
  | request name =>
      rw [here] at main
      simp only [Client.mainStep, here, Option.some.injEq] at moved
      subst moved
      cases busy with
      | none => exact main.elim
      | some index =>
          obtain rfl : name = target.segmentName jndn index := main
          obtain ⟨next, answered, alive⟩ := live.request within here
          exact .inr ⟨index, next, answered, alive⟩
  | ended =>
      simp only [Client.mainStep, here] at moved
      cases moved

/-! ## Every run -/

/-- What the runs below allow: no send fails, the count is `max`, and timeouts have retries left. -/
def Cooperative (jndn : Jndn) (target : Target) (max : Int) (state : State) : Event → Prop
  | .data name content throwsAt =>
      throwsAt = none ∧ (name = target.name → parseLong (jndn.blobText content) = some max)
  | .timeout name throwsAt => throwsAt = none ∧ 0 < state.retries jndn name
  | .main throwsAt => throwsAt = none
  | .fileManager => True

instance (event : Event) : Decidable (Cooperative jndn target max state event) :=
  match event with
  | .data _ _ _ => inferInstanceAs (Decidable (_ ∧ _))
  | .timeout _ _ => inferInstanceAs (Decidable (_ ∧ _))
  | .main _ => inferInstanceAs (Decidable (_ = _))
  | .fileManager => inferInstanceAs (Decidable True)

def Delivers (jndn : Jndn) (target : Target) (max : Int) (Valid : Nat → Bytes → Prop) : Event → Prop
  | .data name content _ => ∀ index : Nat, (index : Int) < max → name = target.segmentName jndn index →
      Valid index content
  | _ => True

/-- A download before and after its count, with what is known of the contents that arrived. -/
def Related (jndn : Jndn) (client : Client) (target : Target) (max : Int) (Valid : Nat → Bytes → Prop) (state : State)
    (image : Fetch.State) : Prop :=
  Waiting jndn client target state ∧ image = { issued := (min client.window max).toNat, answered := ∅ } ∨
    ∃ arrived file busy, Live jndn client target max state image arrived file busy ∧
      ∀ index content, arrived index = some content → Valid index content

variable {Valid : Nat → Bytes → Prop}

theorem related_step (downloads : Downloads jndn client target) (opening : 1 ≤ client.window) (positive : 1 ≤ max)
    (within : image.answered ⊆ Finset.range image.issued) (related : Related jndn client target max Valid before image)
    (cooperative : Cooperative jndn target max before event) (delivers : Delivers jndn target max Valid event)
    (moved : client.step jndn before event = some after) :
    Related jndn client target max Valid after image ∨
      ∃ index next, image.answer max.toNat index = some next ∧ Related jndn client target max Valid after next := by
  rcases related with ⟨waiting, rfl⟩ | ⟨arrived, file, busy, live, valid⟩
  · left
    cases event with
    | data name content throwsAt =>
        obtain ⟨rfl, counted⟩ := cooperative
        obtain ⟨_, here, member, rfl⟩ := step_data.mp moved
        obtain rfl : name = target.name := by simpa [(waiting.sent here).1] using member
        obtain ⟨file, live⟩ := waiting.count downloads here opening positive (counted rfl)
        exact .inr ⟨_, file, none, live, nofun⟩
    | timeout name throwsAt =>
        obtain ⟨rfl, left⟩ := cooperative
        obtain ⟨_, here, member, rfl⟩ := step_timeout.mp moved
        exact .inl ⟨waiting.timeout here member left, rfl⟩
    | main throwsAt =>
        obtain rfl := cooperative
        exact .inl ⟨waiting.mainStep (step_main.mp moved).2, rfl⟩
    | fileManager => exact .inl ⟨waiting.fileManagerStep (step_fileManager.mp moved).2, rfl⟩
  · cases event with
    | data name content throwsAt =>
        obtain ⟨rfl, _⟩ := cooperative
        obtain ⟨_, here, member, rfl⟩ := step_data.mp moved
        obtain ⟨index, inside, named, next⟩ := live.data downloads here member content
        have small := live.small (Fetch.State.mem_outstanding.mp inside).1
        exact .inl (.inr ⟨_, _, _, next, Reorder.update_valid valid (delivers index small named)⟩)
    | timeout name throwsAt =>
        obtain ⟨rfl, left⟩ := cooperative
        obtain ⟨_, here, member, rfl⟩ := step_timeout.mp moved
        exact .inl (.inr ⟨_, _, _, live.timeout here member left, valid⟩)
    | main throwsAt =>
        obtain rfl := cooperative
        rcases live.mainStep within (step_main.mp moved).2 with next | ⟨index, next, answered, alive⟩
        · exact .inl (.inr ⟨_, _, _, next, valid⟩)
        · exact .inr ⟨index, next, answered, .inr ⟨_, _, _, alive, valid⟩⟩
    | fileManager =>
        obtain ⟨next, alive⟩ := live.fileManagerStep (step_fileManager.mp moved).2
        exact .inl (.inr ⟨_, _, _, alive, valid⟩)

def download (jndn : Jndn) (client : Client) (target : Target) (max : Int) : System State Event :=
  (client.system jndn).guarded (Cooperative jndn target max)

/-- A download simulates the abstract window of requests, whose first batch is
already cut to the number of segments. -/
theorem download_simulates (downloads : Downloads jndn client target) (opening : 1 ≤ client.window)
    (positive : 1 ≤ max) :
    System.Simulation (client.download jndn target max) (Fetch.system (min client.window max).toNat max.toNat)
      (Related jndn client target max fun _ _ => True) := by
  constructor
  · intro state same
    subst same
    exact ⟨_, rfl, .inl ⟨waiting_initial downloads, rfl⟩⟩
  · intro before event after image earlier related moved
    obtain ⟨cooperative, moved⟩ := System.guarded_step.mp moved
    have delivers : Delivers jndn target max (fun _ _ => True) event := by cases event <;> simp [Delivers]
    exact related_step downloads opening positive (Fetch.wellFormed earlier).answered related cooperative delivers moved

end Ndnperf.Java.Client

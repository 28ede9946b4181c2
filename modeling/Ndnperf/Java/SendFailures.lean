import Ndnperf.Java.ClientSends

namespace Ndnperf.Java.Client

open Ndn Library Library.Transition List

variable {jndn : Jndn} {client : Client} {state before after : State} {event : Event} {name : Name}

/-! ## The window of the benchmark -/

/-- A client without file, whose names `onData` takes for those of the benchmark. -/
structure Benchmarks (jndn : Jndn) (client : Client) : Prop where
  chosen : client.fileName = none
  selected : ∀ number, (benchmarkName jndn client number)[1]?.map jndn.toEscapedString = some "benchmark".toList

/-- As many Interests are outstanding or still to be sent as the window has. -/
def Balanced (client : Client) (state : State) : Prop :=
  state.face.length + state.iQueue.length = client.window.toNat

structure Benchmarking (jndn : Jndn) (client : Client) (state : State) : Prop where
  named : ∀ name ∈ state.face ++ state.iQueue, ∃ number, name = benchmarkName jndn client number
  idle : state.main.handled = none

theorem benchmarking_initial (benchmarks : Benchmarks jndn client) :
    Benchmarking jndn client (.initial jndn client) where
  named := by
    intro name member
    simp only [State.initial, interests, benchmarks.chosen, List.nil_append, List.mem_map] at member
    obtain ⟨number, _, rfl⟩ := member
    exact ⟨number, rfl⟩
  idle := rfl

/-- What a step takes from the window, the calls of `expressInterest` give back,
unless it is a Data whose name is not in `pendingInterests`. -/
structure Exchanges (jndn : Jndn) (client : Client) (before : State) (event : Event) (after : State) : Prop where
  queue : after.exited = true ∧ calls jndn client before event = [] ∧ Known jndn before event ∨ after.exited = false ∧
    (event.settled before).face.length + after.iQueue.length + (calls jndn client before event).length +
      (if Known jndn before event then 0 else 1) = before.face.length + before.iQueue.length
  named : ∀ name ∈ after.iQueue ++ calls jndn client before event, ∃ number, name = benchmarkName jndn client number
  idle : after.main.handled = none

theorem known_unanswered (unanswered : event.answers = none) : Known jndn before event := by
  simp [Known, unanswered]

theorem known_data {content : Bytes} {throwsAt : Option Failure} :
    Known jndn before (.data name content throwsAt) ↔ jndn.toUri name ∈ before.pendingInterests := by
  simp [Known, Event.answers]

theorem exchanges_data (benchmarks : Benchmarks jndn client) (benchmarking : Benchmarking jndn client before)
    {content : Bytes} {throwsAt : Option Failure}
    (moved : client.step jndn before (.data name content throwsAt) = some after) :
    Exchanges jndn client before (.data name content throwsAt) after := by
  have waiting : ∀ name ∈ before.iQueue, ∃ number, name = benchmarkName jndn client number := fun name member =>
    benchmarking.named name (List.mem_append_right _ member)
  have alive := running_of_step moved
  obtain ⟨_, _, member, rfl⟩ := step_data.mp moved
  obtain ⟨number, named⟩ := benchmarking.named name (List.mem_append_left _ member)
  have selected : name[1]?.map jndn.toEscapedString = some "benchmark".toList := named ▸ benchmarks.selected number
  have one := List.length_erase_of_mem member
  have positive := List.length_pos_of_mem member
  by_cases known : jndn.toUri name ∈ before.pendingInterests
  · have entry : jndn.toUri name ∈ (before.settle name).pendingInterests := known
    have called : calls jndn client before (.data name content throwsAt) =
        [benchmarkName jndn client before.next] := by
      simp only [calls, known, selected, if_true]
    obtain ⟨face, pendingInterests, requested, answered⟩ := @nextBenchmarkInterest_frame jndn client throwsAt
      { before.settle name with
        retryTable := Function.update (before.settle name).retryTable (jndn.toUri name) none }
    simp only [onData, entry, selected, if_true, answered]
    refine ⟨.inr ⟨alive, ?_⟩, ?_, benchmarking.idle⟩
    · simp only [Event.settled, State.settle, called, List.length_singleton, known_data, known, if_true]
      omega
    · rw [called]
      exact List.forall_mem_append.mpr ⟨waiting, List.forall_mem_singleton.mpr ⟨before.next, rfl⟩⟩
  · have called : calls jndn client before (.data name content throwsAt) = [] := by simp only [calls, known, if_false]
    have absent : jndn.toUri name ∉ (before.settle name).pendingInterests := known
    simp only [onData, absent, if_false]
    refine ⟨.inr ⟨alive, ?_⟩, ?_, benchmarking.idle⟩
    · simp only [Event.settled, State.settle, called, List.length_nil, known_data, known, if_false]
      omega
    · rw [called, List.append_nil]
      exact waiting

theorem exchanges_step (benchmarks : Benchmarks jndn client) (benchmarking : Benchmarking jndn client before)
    (moved : client.step jndn before event = some after) : Exchanges jndn client before event after := by
  have waiting : ∀ name ∈ before.iQueue, ∃ number, name = benchmarkName jndn client number := fun name member =>
    benchmarking.named name (List.mem_append_right _ member)
  have alive := running_of_step moved
  cases event with
  | data name content throwsAt => exact exchanges_data benchmarks benchmarking moved
  | timeout name throwsAt =>
      have known : Known jndn before (.timeout name throwsAt) := known_unanswered rfl
      obtain ⟨_, _, member, rfl⟩ := step_timeout.mp moved
      have named := benchmarking.named name (List.mem_append_left _ member)
      have one := List.length_erase_of_mem member
      have positive := List.length_pos_of_mem member
      obtain ⟨face, retryTable, pendingInterests, cont, answered⟩ :=
        @onTimeout_frame jndn name throwsAt (before.settle name)
      rw [answered]
      by_cases left : 0 < before.retries jndn name
      · have called : calls jndn client before (.timeout name throwsAt) = [name] := if_pos left
        refine ⟨.inr ⟨(if_pos left).trans alive, ?_⟩, ?_, benchmarking.idle⟩
        · simp only [Event.settled, State.settle, called, List.length_singleton, known, if_true]
          omega
        · rw [called]
          exact List.forall_mem_append.mpr ⟨waiting, List.forall_mem_singleton.mpr named⟩
      · have called : calls jndn client before (.timeout name throwsAt) = [] := if_neg left
        refine ⟨.inl ⟨if_neg left, called, known⟩, ?_, benchmarking.idle⟩
        rw [called, List.append_nil]
        exact waiting
  | main throwsAt =>
      have known : Known jndn before (.main throwsAt) := known_unanswered rfl
      obtain ⟨name, rest, face, pendingInterests, queued, called, rfl⟩ | ⟨name, here, _⟩ |
        ⟨called, main, filePass, _, handled, rfl⟩ :=
          @mainStep_cases jndn client before after throwsAt (step_main.mp moved).2
      · rw [queued] at waiting
        refine ⟨.inr ⟨alive, ?_⟩, ?_, rfl⟩
        · simp only [Event.settled, called, queued, List.length_cons, List.length_nil, known, if_true]
          omega
        · rw [called]
          exact fun other listed => waiting other (List.perm_append_singleton name rest |>.subset listed)
      · have idle := benchmarking.idle
        rw [here] at idle
        cases idle
      · refine ⟨.inr ⟨alive, by simp [called, Event.settled, known]⟩, ?_, ?_⟩
        · rw [called, List.append_nil]
          exact waiting
        · exact handled.elim id fun same => same.trans benchmarking.idle
  | fileManager =>
      have known : Known jndn before .fileManager := known_unanswered rfl
      obtain ⟨fileManager, pendingFile, filePass, cont, written, rfl⟩ :=
        fileManagerStep_frame (step_fileManager.mp moved).2
      refine ⟨.inr ⟨alive, by simp [calls, Event.settled, known]⟩, fun name member => ?_, benchmarking.idle⟩
      exact waiting name (by simpa [calls] using member)

theorem benchmarking_inductive (benchmarks : Benchmarks jndn client) :
    (client.system jndn).Inductive (Benchmarking jndn client) where
  start := fun start => start ▸ benchmarking_initial benchmarks
  step := fun {before event _} benchmarking moved => by
    have exchanges := exchanges_step benchmarks benchmarking moved
    refine ⟨fun name member => ?_, exchanges.idle⟩
    obtain sent | waits := List.mem_append.mp member
    · rw [(step_sends moved).face] at sent
      obtain kept | asked := List.mem_append.mp sent
      · exact benchmarking.named name (List.mem_append_left _ (settled_face event before kept))
      · exact exchanges.named name (List.mem_append_right _ ((passed_sublist _ _).subset asked))
    · exact exchanges.named name (List.mem_append_left _ waits)

/-- Nothing stays unsent, and a Data finds its name in `pendingInterests`. -/
def AllSent (jndn : Jndn) (client : Client) (state : State) (event : Event) : Prop :=
  unsent jndn client state event = [] ∧ Known jndn state event

/-- A call that throws takes an Interest from the window unless the face keeps
it, and then the Data of that Interest does. -/
theorem balanced_step (benchmarks : Benchmarks jndn client) (benchmarking : Benchmarking jndn client before)
    (held : Balanced client before) (moved : client.step jndn before event = some after) :
    after.exited = true ∨ Balanced client after ↔ AllSent jndn client before event := by
  have sent := congrArg List.length (step_sends moved).face
  have parts := congrArg List.length (passed_append_unsent jndn client before event)
  rw [List.length_append] at sent parts
  unfold Balanced at held ⊢
  obtain ⟨exited, called, known⟩ | ⟨alive, exchanged⟩ := (exchanges_step benchmarks benchmarking moved).queue
  · exact iff_of_true (.inl exited) ⟨unsent_silent called, known⟩
  · rw [AllSent, ← List.length_eq_zero_iff]
    simp only [alive, Bool.false_eq_true, false_or]
    by_cases known : Known jndn before event
    · simp only [known, if_true, and_true] at exchanged ⊢
      omega
    · simp only [known, if_false, and_false, iff_false] at exchanged ⊢
      omega

/-! ## The segments of a download -/

/-- Each segment below the limit is received or in flight. -/
def Covered (jndn : Jndn) (name : Name) (limit : Int) (received : List (Int × Bytes)) (face : List Name) : Prop :=
  ∀ index : Nat, (index : Int) < limit →
    (∃ content, ((index : Int), content) ∈ received) ∨ name.take 3 ++ [jndn.fromSegment index] ∈ face

/-- A segment in flight is below the limit, not received, and in flight once. -/
structure InFlight (jndn : Jndn) (target : Target) (limit : Int) (received : List (Int × Bytes)) (face : List Name) :
    Prop where
  small : limit < 2 ^ 63
  segment : ∀ name ∈ face, ∃ index : Nat, (index : Int) < limit ∧ name = target.segmentName jndn index ∧
    ∀ content, ((index : Int), content) ∉ received
  once : face.Nodup
  below : ∀ entry ∈ received, entry.1 < limit

section InFlight

variable {target : Target} {limit : Int} {received : List (Int × Bytes)} {face : List Name} {index : Nat}

theorem InFlight.missing (inFlight : InFlight jndn target limit received face) (later : limit ≤ index)
    (small : (index : Int) < 2 ^ 63) : target.segmentName jndn index ∉ face := by
  intro member
  obtain ⟨other, below, same, _⟩ := inFlight.segment _ member
  have bound := inFlight.small
  obtain rfl := Target.segmentName_injective small (by omega) same
  omega

theorem not_covered (below : (index : Int) < limit) (unreceived : ∀ content, ((index : Int), content) ∉ received)
    (missing : target.segmentName jndn index ∉ face) : ¬Covered jndn target.name limit received face := by
  intro covered
  obtain ⟨content, arrived⟩ | sent := covered index below
  · exact unreceived content arrived
  · exact missing sent

theorem InFlight.narrow (inFlight : InFlight jndn target limit received face) {fewer : List Name}
    (subset : fewer ⊆ face) (once : fewer.Nodup) : InFlight jndn target limit received fewer where
  small := inFlight.small
  segment name member := inFlight.segment name (subset member)
  once
  below := inFlight.below

theorem InFlight.drop (inFlight : InFlight jndn target limit received face) (name : Name) :
    InFlight jndn target limit received (face.erase name) :=
  inFlight.narrow List.erase_subset (inFlight.once.erase name)

/-- The Interest of a timeout goes to the end of the list. -/
theorem InFlight.resend (inFlight : InFlight jndn target limit received face) (member : name ∈ face) :
    InFlight jndn target limit received (face.erase name ++ [name]) := by
  have same : face.Perm (face.erase name ++ [name]) :=
    (List.perm_cons_erase member).trans (List.perm_append_singleton name _).symm
  exact inFlight.narrow same.symm.subset (same.nodup_iff.mp inFlight.once)

theorem InFlight.answer (inFlight : InFlight jndn target limit received face) (below : (index : Int) < limit)
    (content : Bytes) :
    InFlight jndn target limit (received ++ [((index : Int), content)])
      (face.erase (target.segmentName jndn index)) where
  small := inFlight.small
  segment := by
    intro name kept
    obtain ⟨different, kept⟩ := (inFlight.once.mem_erase_iff).mp kept
    obtain ⟨other, inside, rfl, unreceived⟩ := inFlight.segment name kept
    refine ⟨other, inside, rfl, fun stored arrived => ?_⟩
    obtain earlier | latest := List.mem_append.mp arrived
    · exact unreceived stored earlier
    · obtain ⟨same, _⟩ := Prod.mk.inj (List.mem_singleton.mp latest)
      exact different (by rw [show other = index by omega])
  once := inFlight.once.erase _
  below := List.forall_mem_append.mpr ⟨inFlight.below, List.forall_mem_singleton.mpr below⟩

/-- The limit moves past a segment, whether or not it is sent. -/
theorem InFlight.skip (inFlight : InFlight jndn target limit received face) (small : limit + 1 < 2 ^ 63) :
    InFlight jndn target (limit + 1) received face where
  small
  segment name member := by
    obtain ⟨index, below, named, unreceived⟩ := inFlight.segment name member
    exact ⟨index, by omega, named, unreceived⟩
  once := inFlight.once
  below entry arrived := by
    have below := inFlight.below entry arrived
    omega

theorem InFlight.send (inFlight : InFlight jndn target index received face) (small : (index : Int) + 1 < 2 ^ 63) :
    InFlight jndn target (index + 1) received (face ++ [target.segmentName jndn index]) where
  small
  segment := by
    refine List.forall_mem_append.mpr ⟨(inFlight.skip small).segment, List.forall_mem_singleton.mpr ?_⟩
    refine ⟨index, by omega, rfl, fun content arrived => ?_⟩
    exact absurd (inFlight.below _ arrived) (Int.lt_irrefl _)
  once := by
    refine List.nodup_append.mpr ⟨inFlight.once, List.nodup_singleton _, ?_⟩
    intro name member other latest same
    obtain rfl := List.mem_singleton.mp latest
    exact inFlight.missing (Int.le_refl _) (by omega) (same ▸ member)
  below := (inFlight.skip small).below

theorem InFlight.first {rounds : Nat} (small : limit < 2 ^ 63) (within : (rounds : Int) ≤ max limit 0) :
    InFlight jndn target limit [] ((List.range rounds).map fun segment : Nat => target.name ++
      [jndn.fromSegment segment])
    where
  small
  segment := by
    intro name member
    obtain ⟨segment, inside, rfl⟩ := List.mem_map.mp member
    have below := List.mem_range.mp inside
    exact ⟨segment, by omega, rfl, fun _ => List.not_mem_nil⟩
  once := by
    refine List.Nodup.map_on (fun left leftInside right rightInside same => ?_) List.nodup_range
    have leftBelow := List.mem_range.mp leftInside
    have rightBelow := List.mem_range.mp rightInside
    exact @Target.segmentName_injective jndn target left right (by omega) (by omega) same
  below := nofun

theorem Covered.subset (covered : Covered jndn name limit received face) {more : List Name} (subset : face ⊆ more) :
    Covered jndn name limit received more := fun index below =>
  (covered index below).imp_right fun sent => subset sent

theorem Covered.answer (covered : Covered jndn target.name limit received face) (below : (index : Int) < 2 ^ 63)
    (small : limit < 2 ^ 63) (content : Bytes) :
    Covered jndn target.name limit (received ++ [((index : Int), content)])
      (face.erase (target.segmentName jndn index)) := by
  intro other inside
  by_cases same : other = index
  · exact .inl ⟨content, List.mem_append_right _ (same ▸ List.mem_singleton_self _)⟩
  · obtain ⟨stored, earlier⟩ | sent := covered other inside
    · exact .inl ⟨stored, List.mem_append_left _ earlier⟩
    · refine .inr ((List.mem_erase_of_ne fun equal => ?_).mpr sent)
      exact same (Target.segmentName_injective (by omega) below equal)

theorem Covered.send (covered : Covered jndn target.name index received face) :
    Covered jndn target.name (index + 1) received (face ++ [target.segmentName jndn index]) := by
  intro other inside
  by_cases same : other = index
  · exact .inr (List.mem_append_right _ (same ▸ List.mem_singleton_self _))
  · exact covered.subset (List.subset_append_left _ _) other (by omega)

end InFlight

/-- Each segment that `next` has passed is received or in flight. -/
def Kept (jndn : Jndn) (name : Name) (state : State) : Prop :=
  Covered jndn name (min state.next state.max) state.received state.face

/-- No Interest for a segment stays unsent, and no Data of a segment misses its
name in `pendingInterests`. -/
def SegmentsSent (jndn : Jndn) (client : Client) (name : Name) (state : State) (event : Event) : Prop :=
  name.length = 3 → ∀ index : Nat, name ++ [jndn.fromSegment index] ∉ unsent jndn client state event ∧
    (event.answers = some (name ++ [jndn.fromSegment index]) →
      jndn.toUri (name ++ [jndn.fromSegment index]) ∈ state.pendingInterests)

/-- A step that finds every segment received or in flight leaves them so if and
only if it loses none. -/
def Decided (jndn : Jndn) (client : Client) (name : Name) (before : State) (event : Event) (after : State) : Prop :=
  Kept jndn name before → (after.exited = true ∨ Kept jndn name after ↔ SegmentsSent jndn client name before event)

/-- The number of segments is not known, or there are none. -/
structure Uncounted (name : Name) (state : State) : Prop where
  few : state.max ≤ 0
  absent : state.pendingFile.isSome = false
  nothing : state.received = []
  idle : state.main.handled = none
  single : (state.face ++ state.iQueue) <+~ [name]

/-- The Data that is being handled is a segment, so `next` has passed one. -/
def Handling (jndn : Jndn) (target : Target) (main : MainPc) (next : Int) : Prop :=
  ∀ name ∈ main.handled, 0 < next ∧ ∃ index : Nat, name = target.segmentName jndn index

structure Counted (jndn : Jndn) (target : Target) (state : State) : Prop where
  queue : state.iQueue = []
  opened : state.pendingFile.isSome = true
  handling : Handling jndn target state.main state.next
  inFlight : InFlight jndn target (min state.next state.max) state.received state.face
  bound : state.max < 2 ^ 63

section Segments

variable {target : Target}

/-- The file manager neither opens a file nor forgets one. -/
theorem fileManagerStep_isSome (moved : fileManagerStep before = some after) :
    after.pendingFile.isSome = before.pendingFile.isSome := by
  have used : ∀ use : PendingFile → State,
      (∀ file, before.pendingFile = some file → (use file).pendingFile.isSome = true) →
      (before.withFile use).pendingFile.isSome = before.pendingFile.isSome := by
    intro use kept
    unfold State.withFile
    cases opened : before.pendingFile with
    | none => simp [State.fileManagerAt, opened]
    | some file => exact kept file opened
  unfold fileManagerStep at moved
  split at moved
  all_goals simp only [Option.ite_none_right_eq_some, Option.some.injEq, reduceCtorEq] at moved
  case h_4 =>
    obtain ⟨_, rfl⟩ := moved
    rfl
  case h_8 =>
    subst moved
    refine used _ fun file opened => ?_
    split
    · rfl
    · simp [opened]
  all_goals subst moved
  all_goals first
    | rfl
    | exact used _ fun file opened => by simp [State.fileManagerAt, opened]

theorem handling_idle {main : MainPc} {next : Int} (idle : main.handled = none) : Handling jndn target main next := by
  intro name handled
  simp [idle] at handled

theorem segmentsSent_made {name : Name} (made : unsent jndn client before event = [])
    (known : ∀ other ∈ event.answers, jndn.toUri other ∈ before.pendingInterests) :
    SegmentsSent jndn client name before event := fun _ _ => ⟨by simp [made], known _⟩

theorem not_segmentsSent {index : Nat} (lost : target.segmentName jndn index ∈ unsent jndn client before event) :
    ¬SegmentsSent jndn client target.name before event := fun sent => (sent rfl index).1 lost

theorem segmentsSent_silent {name : Name} (called : calls jndn client before event = [])
    (known : ∀ other ∈ event.answers, jndn.toUri other ∈ before.pendingInterests) :
    SegmentsSent jndn client name before event := segmentsSent_made (unsent_silent called) known

theorem Counted.timeout (counted : Counted jndn target before) {throwsAt : Option Failure}
    (moved : client.step jndn before (.timeout name throwsAt) = some after) :
    Counted jndn target after ∧ Decided jndn client target.name before (.timeout name throwsAt) after := by
  have sent := (step_sends moved).face
  have unanswered : ∀ other ∈ (Event.timeout name throwsAt).answers, jndn.toUri other ∈ before.pendingInterests := by
    simp [Event.answers]
  obtain ⟨running, _, member, rfl⟩ := step_timeout.mp moved
  obtain ⟨face, retryTable, pendingInterests, cont, answered⟩ :=
    @onTimeout_frame jndn name throwsAt (before.settle name)
  rw [answered] at sent ⊢
  by_cases left : 0 < before.retries jndn name
  · have called : calls jndn client before (.timeout name throwsAt) = [name] := if_pos left
    obtain ⟨made, all⟩ | ⟨lost, none⟩ := unsent_cases_one called
    · rw [all] at sent
      have sent : face = before.face.erase name ++ [name] := sent
      refine ⟨⟨counted.queue, counted.opened, counted.handling, ?_, counted.bound⟩, ?_⟩
      · exact sent ▸ counted.inFlight.resend member
      · intro kept
        refine iff_of_true (.inr ?_) (segmentsSent_made made unanswered)
        have same := (List.perm_cons_erase member).trans (List.perm_append_singleton name _).symm
        exact kept.subset (sent ▸ same.subset)
    · rw [none, List.append_nil] at sent
      have sent : face = before.face.erase name := sent
      obtain ⟨index, below, rfl, unreceived⟩ := counted.inFlight.segment name member
      refine ⟨⟨counted.queue, counted.opened, counted.handling, ?_, counted.bound⟩, ?_⟩
      · exact sent ▸ counted.inFlight.drop _
      · intro _
        refine iff_of_false (fun holds => ?_) (not_segmentsSent (lost ▸ List.mem_singleton_self _))
        obtain exited | kept := holds
        · exact absurd ((if_pos left).symm.trans exited) (Bool.eq_false_iff.mp running)
        · exact not_covered below unreceived (sent ▸ counted.inFlight.once.not_mem_erase) kept
  · have called : calls jndn client before (.timeout name throwsAt) = [] := if_neg left
    rw [called, passed_nil, List.append_nil] at sent
    have sent : face = before.face.erase name := sent
    refine ⟨⟨counted.queue, counted.opened, counted.handling, ?_, counted.bound⟩, ?_⟩
    · exact sent ▸ counted.inFlight.drop name
    · exact fun _ => iff_of_true (.inl (if_neg left)) (segmentsSent_silent called unanswered)

theorem Counted.request (counted : Counted jndn target before) {throwsAt : Option Failure}
    (here : before.main = .request name) (moved : client.step jndn before (.main throwsAt) = some after) :
    Counted jndn target after ∧ Decided jndn client target.name before (.main throwsAt) after := by
  have unanswered : ∀ other ∈ (Event.main throwsAt).answers, jndn.toUri other ∈ before.pendingInterests := by
    simp [Event.answers]
  have sent := (step_sends moved).face
  obtain ⟨positive, handled, rfl⟩ := counted.handling name (by rw [here]; rfl)
  obtain ⟨running, rfl⟩ := (step_request here).mp moved
  obtain ⟨face, pendingInterests, requested, answered⟩ :=
    @requestNext_frame jndn (target.segmentName jndn handled) throwsAt before
  rw [answered] at sent ⊢
  have bound := counted.bound
  have idle : Handling jndn target .events (before.next + 1) := handling_idle rfl
  by_cases more : before.next < before.max
  · obtain ⟨index, current⟩ : ∃ index : Nat, before.next = index := Int.eq_ofNat_of_zero_le positive.le
    have now : min before.next before.max = index := by omega
    have later : min (before.next + 1) before.max = (index : Int) + 1 := by omega
    have small : (index : Int) + 1 < 2 ^ 63 := by omega
    have inFlight := counted.inFlight
    rw [now] at inFlight
    unfold Decided Kept
    rw [now]
    have called : calls jndn client before (.main throwsAt) = [target.segmentName jndn index] := by
      have ahead : (index : Int) < before.max := current ▸ more
      simp only [calls, here, current, if_pos ahead]
      rfl
    obtain ⟨made, all⟩ | ⟨lost, none⟩ := unsent_cases_one called
    · rw [all] at sent
      have sent : face = before.face ++ [target.segmentName jndn index] := sent
      simp only [later, sent]
      refine ⟨⟨counted.queue, counted.opened, idle, ?_, counted.bound⟩, ?_⟩
      · simp only [later]
        exact inFlight.send small
      · exact fun kept => iff_of_true (.inr kept.send) (segmentsSent_made made unanswered)
    · rw [none, List.append_nil] at sent
      have sent : face = before.face := sent
      simp only [later, sent]
      refine ⟨⟨counted.queue, counted.opened, idle, ?_, counted.bound⟩, ?_⟩
      · simp only [later]
        exact inFlight.skip small
      · intro _
        refine iff_of_false (fun holds => ?_) (not_segmentsSent (lost ▸ List.mem_singleton_self _))
        obtain exited | covered := holds
        · exact absurd exited (Bool.eq_false_iff.mp running)
        · refine not_covered (lt_add_one (index : Int)) (fun content arrived => ?_)
            (inFlight.missing (Int.le_refl _) (by omega)) covered
          exact absurd (inFlight.below _ arrived) (Int.lt_irrefl _)
  · have called : calls jndn client before (.main throwsAt) = [] := by simp only [calls, here, if_neg more]
    have same : min (before.next + 1) before.max = min before.next before.max := by omega
    rw [called, passed_nil, List.append_nil] at sent
    have sent : face = before.face := sent
    refine ⟨⟨counted.queue, counted.opened, idle, ?_, counted.bound⟩, ?_⟩
    · simp only [same, sent]
      exact counted.inFlight
    · intro kept
      refine iff_of_true (.inr ?_) (segmentsSent_silent called unanswered)
      unfold Kept
      simp only [same, sent]
      exact kept

theorem Counted.data (downloads : Downloads jndn client target) (counted : Counted jndn target before)
    {content : Bytes} {throwsAt : Option Failure}
    (moved : client.step jndn before (.data name content throwsAt) = some after) :
    Counted jndn target after ∧ Decided jndn client target.name before (.data name content throwsAt) after := by
  obtain ⟨running, _, member, rfl⟩ := step_data.mp moved
  obtain ⟨index, below, rfl, unreceived⟩ := counted.inFlight.segment name member
  obtain ⟨file, opened⟩ := Option.isSome_iff_exists.mp counted.opened
  have bound := counted.bound
  have small := counted.inFlight.small
  by_cases known : jndn.toUri (target.segmentName jndn index) ∈ before.pendingInterests
  · have called : calls jndn client before (.data (target.segmentName jndn index) content throwsAt) = [] := by
      simp [calls, Target.segmentName, Target.name, downloads.selected, callsOfDownload]
    have held : (before.settle (target.segmentName jndn index)).pendingFile = some file := opened
    have entry : jndn.toUri (target.segmentName jndn index) ∈
        (before.settle (target.segmentName jndn index)).pendingInterests := known
    rw [onData_segment downloads (by omega) entry held throwsAt]
    refine ⟨⟨counted.queue, rfl, ?_, counted.inFlight.answer below content, counted.bound⟩, ?_⟩
    · intro other handled
      have passed : 0 < before.next := by omega
      exact ⟨passed, index, (Option.some.inj handled).symm⟩
    · refine fun kept => iff_of_true (.inr (kept.answer (by omega) small content)) (segmentsSent_silent called ?_)
      exact fun other answers => Option.some.inj answers ▸ known
  · have absent : jndn.toUri (target.segmentName jndn index) ∉
        (before.settle (target.segmentName jndn index)).pendingInterests := known
    simp only [onData, absent, if_false]
    refine ⟨{ counted with inFlight := counted.inFlight.drop _ },
      fun _ => iff_of_false (fun holds => ?_) fun sent => ?_⟩
    · obtain exited | kept := holds
      · exact absurd exited (Bool.eq_false_iff.mp running)
      · exact not_covered below unreceived counted.inFlight.once.not_mem_erase kept
    · exact known ((sent rfl index).2 rfl)

theorem counted_step (downloads : Downloads jndn client target) (counted : Counted jndn target before)
    (moved : client.step jndn before event = some after) :
    Counted jndn target after ∧ Decided jndn client target.name before event after := by
  cases event with
  | data name content throwsAt => exact counted.data downloads moved
  | timeout name throwsAt => exact counted.timeout moved
  | main throwsAt =>
      obtain ⟨name, rest, _, _, queued, _⟩ | ⟨name, here, _⟩ | ⟨called, main, filePass, _, handled, rfl⟩ :=
        @mainStep_cases jndn client before after throwsAt (step_main.mp moved).2
      · simp [counted.queue] at queued
      · exact counted.request here moved
      · refine ⟨{ counted with handling := fun name answered => ?_ },
          fun kept => iff_of_true (.inr kept) (segmentsSent_silent called (by simp [Event.answers]))⟩
        obtain idle | same := handled
        · exact handling_idle idle name answered
        · exact counted.handling name (same ▸ answered)
  | fileManager =>
      obtain ⟨_, moved⟩ := step_fileManager.mp moved
      have opened := (fileManagerStep_isSome moved).trans counted.opened
      obtain ⟨fileManager, pendingFile, filePass, cont, written, rfl⟩ := fileManagerStep_frame moved
      exact ⟨{ counted with opened },
        fun kept => iff_of_true (.inr kept) (segmentsSent_silent rfl (by simp [Event.answers]))⟩

/-! Before the number of segments is known -/

theorem Uncounted.kept (uncounted : Uncounted name state) : Kept jndn name state := by
  intro index below
  have few := uncounted.few
  omega

/-- What a step asks for and answers is the count. -/
theorem segmentsSent_count (only : ∀ other ∈ calls jndn client before event, other = name)
    (answered : ∀ other ∈ event.answers, other = name) : SegmentsSent jndn client name before event := by
  intro _ index
  constructor
  · intro lost
    simpa using congrArg List.length (only _ (unsent_subset jndn client before event lost))
  · intro answers
    simpa using congrArg List.length (answered _ answers)

theorem nextDownloadInterest_cases (absent : state.pendingFile.isSome = false) (content : Bytes)
    (throwsAt : Option Failure) :
    (∃ first second file max, name = [first, second, file] ∧ parseLong (jndn.blobText content) = some max ∧ 0 < max ∧
        ∃ face pendingInterests requested opened, client.nextDownloadInterest jndn name content throwsAt state =
          { state with max, face, pendingInterests, requested, pendingFile := some opened }) ∨
      callsOfDownload jndn state name content = [] ∧ ∃ max cont, (max ≤ 0 ∨ max = state.max) ∧
        client.nextDownloadInterest jndn name content throwsAt state = { state with max, cont } := by
  have closed : state.pendingFile = none := Option.not_isSome_iff_eq_none.mp (by simp [absent])
  have unchanged : (state.max ≤ 0 ∨ state.max = state.max) ∧
      state = { state with max := state.max, cont := state.cont } :=
    ⟨.inr rfl, rfl⟩
  rcases name with _ | ⟨first, _ | ⟨second, _ | ⟨file, _ | ⟨last, rest⟩⟩⟩⟩
  · exact .inr ⟨rfl, _, _, unchanged⟩
  · exact .inr ⟨rfl, _, _, unchanged⟩
  · exact .inr ⟨rfl, _, _, unchanged⟩
  · simp only [nextDownloadInterest, callsOfDownload]
    cases parsed : parseLong (jndn.blobText content) with
    | none => exact .inr ⟨rfl, _, _, unchanged⟩
    | some max =>
        by_cases few : max ≤ 0
        · have none : (min state.next max).toNat = 0 := by omega
          simp only [few, if_true, none]
          exact .inr ⟨rfl, max, false, .inl few, rfl⟩
        · simp only [few, if_false, expressLoop_eq]
          exact .inl ⟨first, second, file, max, rfl, rfl, by omega, _, _, _, _, rfl⟩
  · refine .inr ⟨rfl, state.max, state.cont, .inr rfl, ?_⟩
    simp only [nextDownloadInterest]
    split
    · rename_i opened
      cases closed.symm.trans opened
    · rfl

theorem onData_cases (apart : name[1]?.map jndn.toEscapedString ≠ some "benchmark".toList)
    (absent : state.pendingFile.isSome = false) (content : Bytes) (throwsAt : Option Failure) :
    (∃ (target : Target) (max : Int), target.name = name ∧ jndn.toEscapedString target.selector = "download".toList ∧
        max < 2 ^ 63 ∧ calls jndn client state (.data name content throwsAt) =
          ((List.range (min state.next max).toNat).map fun segment : Nat => name ++ [jndn.fromSegment segment]) ∧
        ∃ face retryTable pendingInterests requested opened, client.onData jndn name content throwsAt state =
          { state with max, face, retryTable, pendingInterests, requested, pendingFile := some opened }) ∨
      calls jndn client state (.data name content throwsAt) = [] ∧ ∃ retryTable max cont, (max ≤ 0 ∨ max = state.max) ∧
        client.onData jndn name content throwsAt state = { state with retryTable, max, cont } := by
  obtain ⟨retryTable, removed⟩ : ∃ retryTable, Function.update state.retryTable (jndn.toUri name) none = retryTable :=
    ⟨_, rfl⟩
  have unchanged : ∃ (table : Text → Option Int) (max : Int) (cont : Bool), (max ≤ 0 ∨ max = state.max) ∧
      { state with retryTable } = { state with retryTable := table, max, cont } := ⟨_, _, _, .inr rfl, rfl⟩
  simp only [onData, calls, removed]
  by_cases known : jndn.toUri name ∈ state.pendingInterests
  · simp only [known, if_true, if_neg apart]
    cases selected : name[1]?.map jndn.toEscapedString with
    | none => exact .inr ⟨rfl, unchanged⟩
    | some selector =>
        have other : selector ≠ "benchmark".toList := fun same => apart (same ▸ selected)
        by_cases download : selector = "download".toList
        · subst download
          simp only [if_neg other, if_true]
          obtain ⟨first, second, file, max, rfl, parsed, positive, face, pendingInterests, requested,
              opened, answered⟩ |
            ⟨called, max, cont, few, answered⟩ :=
              @nextDownloadInterest_cases jndn client { state with retryTable } name absent content throwsAt
          · refine .inl ⟨⟨first, second, file⟩, max, rfl, Option.some.inj selected, parseLong_lt parsed, ?_,
              face, retryTable, pendingInterests, requested, opened, answered⟩
            simp only [callsOfDownload, parsed]
          · exact .inr ⟨called, retryTable, max, cont, few, answered⟩
        · simp only [if_neg other, if_neg download, Option.some.injEq]
          exact .inr ⟨trivial, unchanged⟩
  · simp only [known, if_false]
    exact .inr ⟨trivial, unchanged⟩

/-- The count has come, and the loop after it has sent the first segments. -/
theorem counted_first {event : Event} {limit : Nat} (queue : after.iQueue = []) (nothing : after.received = [])
    (opened : after.pendingFile.isSome = true) (here : after.main = .events) (bound : after.max < 2 ^ 63)
    (passing : (min after.next after.max).toNat = limit) (alive : after.exited = false)
    (answered : ∀ other ∈ event.answers, other = target.name)
    (called : calls jndn client before event =
      (List.range limit).map fun segment : Nat => target.name ++ [jndn.fromSegment segment])
    (sent : after.face = passed event.throwsAt (calls jndn client before event)) :
    Counted jndn target after ∧ Decided jndn client target.name before event after := by
  have idle : Handling jndn target after.main after.next := handling_idle (here ▸ rfl)
  obtain ⟨rounds, within, through, lost⟩ := unsent_split jndn client before event
  rw [called, List.length_map, List.length_range] at within
  have face : after.face =
      (List.range rounds).map (fun segment : Nat => target.name ++ [jndn.fromSegment segment]) := by
    rw [sent, through, called, ← List.map_take, List.take_range, Nat.min_eq_left within]
  have counted : Counted jndn target after := by
    refine ⟨queue, opened, idle, ?_, bound⟩
    rw [nothing, face]
    exact .first (by omega) (by omega)
  refine ⟨counted, fun _ => ?_⟩
  obtain all | fewer := Nat.eq_or_lt_of_le within
  · have none : unsent jndn client before event = [] := by rw [lost, called, List.drop_of_length_le (by simp [all])]
    refine iff_of_true (.inr fun index below => .inr ?_) fun three index => ⟨by simp [none], fun answers => ?_⟩
    · rw [face]
      exact List.mem_map.mpr ⟨index, List.mem_range.mpr (by omega), rfl⟩
    · simpa using congrArg List.length (answered _ answers)
  · have missed : target.segmentName jndn rounds ∈ unsent jndn client before event := by
      rw [lost, called]
      refine List.mem_of_getElem? (i := 0) ?_
      simp [List.getElem?_drop, List.getElem?_range fewer, Target.segmentName]
    refine iff_of_false (fun holds => ?_) (not_segmentsSent missed)
    obtain exited | covered := holds
    · simp [alive] at exited
    · have below : (rounds : Int) < min after.next after.max := by omega
      refine not_covered below (by simp [nothing]) (fun member => ?_) covered
      rw [face] at member
      obtain ⟨segment, earlier, same⟩ := List.mem_map.mp member
      have before := List.mem_range.mp earlier
      have equal := @Target.segmentName_injective jndn target segment rounds (by omega) (by omega) same
      omega

theorem Uncounted.data (asked : client.interests jndn = [name])
    (apart : name[1]?.map jndn.toEscapedString ≠ some "benchmark".toList) (uncounted : Uncounted name before)
    {other : Name} {content : Bytes} {throwsAt : Option Failure}
    (moved : client.step jndn before (.data other content throwsAt) = some after) :
    (Uncounted name after ∧ SegmentsSent jndn client name before (.data other content throwsAt)) ∨
      ∃ target : Target, target.name = name ∧ Downloads jndn client target ∧ Counted jndn target after ∧
        Decided jndn client target.name before (.data other content throwsAt) after := by
  have sent := (step_sends moved).face
  obtain ⟨running, here, member, rfl⟩ := step_data.mp moved
  obtain rfl := List.mem_singleton.mp (uncounted.single.subset (List.mem_append_left _ member))
  have single := uncounted.single.length_le
  have one := List.length_erase_of_mem member
  have positive := List.length_pos_of_mem member
  rw [List.length_append, List.length_singleton] at single
  have cleared : before.face.erase other = [] := List.eq_nil_of_length_eq_zero (by omega)
  have queued : before.iQueue = [] := List.eq_nil_of_length_eq_zero (by omega)
  have absent : (before.settle other).pendingFile.isSome = false := uncounted.absent
  obtain ⟨target, max, rfl, selected, bound, called, face, retryTable, pendingInterests, requested, opened, answered⟩ |
    ⟨called, retryTable, max, cont, few, answered⟩ :=
      @onData_cases jndn client (before.settle other) other apart absent content throwsAt
  · rw [answered] at sent ⊢
    refine .inr ⟨target, rfl, ⟨asked, selected⟩, ?_⟩
    have sent : face = before.face.erase target.name ++ _ := sent
    rw [cleared, List.nil_append] at sent
    have only : ∀ other ∈ (Event.data target.name content throwsAt).answers, other = target.name :=
      fun other answers => (Option.some.inj answers).symm
    exact counted_first queued uncounted.nothing rfl here bound rfl running only called sent
  · rw [answered]
    refine .inl ⟨⟨?_, uncounted.absent, uncounted.nothing, uncounted.idle, ?_⟩, segmentsSent_count ?_ ?_⟩
    · obtain few | same := few
      · exact few
      · exact same ▸ uncounted.few
    · simp [State.settle, cleared, queued]
    · have none : calls jndn client before (.data other content throwsAt) = [] := called
      simp [none]
    · exact fun answered answers => (Option.some.inj answers).symm

theorem Uncounted.timeout (uncounted : Uncounted name before) {other : Name} {throwsAt : Option Failure}
    (moved : client.step jndn before (.timeout other throwsAt) = some after) :
    Uncounted name after ∧ SegmentsSent jndn client name before (.timeout other throwsAt) := by
  have sent := (step_sends moved).face
  obtain ⟨_, _, member, rfl⟩ := step_timeout.mp moved
  obtain rfl := List.mem_singleton.mp (uncounted.single.subset (List.mem_append_left _ member))
  have called : calls jndn client before (.timeout other throwsAt) <+ [other] := by
    simp only [calls]
    split
    · exact List.Sublist.refl _
    · exact List.nil_sublist _
  obtain ⟨face, retryTable, pendingInterests, cont, answered⟩ :=
    @onTimeout_frame jndn other throwsAt (before.settle other)
  rw [answered] at sent ⊢
  have sent : face = before.face.erase other ++ passed throwsAt (calls jndn client before (.timeout other throwsAt)) :=
    sent
  refine ⟨⟨uncounted.few, uncounted.absent, uncounted.nothing, uncounted.idle, ?_⟩,
    segmentsSent_count (fun asked listed => List.mem_singleton.mp (called.subset listed)) (by simp [Event.answers])⟩
  have fewer : face <+~ before.face.erase other ++ [other] :=
    sent ▸ (((passed_sublist _ _).trans called).append_left _).subperm
  have same : before.face.erase other ++ [other] ~ before.face :=
    (List.perm_append_singleton other _).trans (List.perm_cons_erase member).symm
  exact ((List.subperm_append_right _).mpr (fewer.trans same.subperm)).trans uncounted.single

theorem Uncounted.main (uncounted : Uncounted name before) {throwsAt : Option Failure}
    (moved : client.step jndn before (.main throwsAt) = some after) :
    Uncounted name after ∧ SegmentsSent jndn client name before (.main throwsAt) := by
  have sent := (step_sends moved).face
  obtain ⟨running, moved⟩ := step_main.mp moved
  have single := uncounted.single
  obtain ⟨other, rest, face, pendingInterests, queued, called, rfl⟩ | ⟨other, here, _⟩ |
    ⟨called, main, filePass, _, handled, rfl⟩ := @mainStep_cases jndn client before after throwsAt moved
  · rw [queued] at single
    have count : other = name := List.mem_singleton.mp (single.subset (List.mem_append_right _ List.mem_cons_self))
    rw [called] at sent
    have sent : face = before.face ++ passed throwsAt [other] := sent
    refine ⟨⟨uncounted.few, uncounted.absent, uncounted.nothing, rfl, ?_⟩,
      segmentsSent_count (fun asked listed => ?_) (by simp [Event.answers])⟩
    · have fewer : face ++ rest <+ before.face ++ other :: rest := by
        rw [sent, List.append_assoc]
        exact ((passed_sublist throwsAt [other]).append_right rest).append_left before.face
      exact fewer.subperm.trans single
    · rw [called] at listed
      exact (List.mem_singleton.mp listed).trans count
  · have idle := uncounted.idle
    rw [here] at idle
    cases idle
  · refine ⟨{ uncounted with idle := ?_ }, segmentsSent_silent called (by simp [Event.answers])⟩
    exact handled.elim id fun same => same.trans uncounted.idle

/-! Without its first Interest a download has nothing below the limit to lose, but it never begins. -/

/-- The Interest for the count is neither in the queue nor outstanding. -/
structure Countless (name : Name) (state : State) : Prop where
  uncounted : Uncounted name state
  nothing : state.face ++ state.iQueue = []

/-- A call for the count that throws, and whose Interest the face does not keep, is the last one. -/
theorem Uncounted.unsent (uncounted : Uncounted name before) (unanswered : event.answers = none)
    (lost : unsent jndn client before event ≠ []) (moved : client.step jndn before event = some after) :
    Countless name after := by
  have sent := (step_sends moved).face
  have single := uncounted.single.length_le
  rw [List.length_append, List.length_singleton] at single
  cases event with
  | data other content throwsAt => simp [Event.answers] at unanswered
  | timeout other throwsAt =>
      refine ⟨(uncounted.timeout moved).1, ?_⟩
      obtain ⟨_, _, member, rfl⟩ := step_timeout.mp moved
      have called : calls jndn client before (.timeout other throwsAt) = [other] := by
        by_contra none
        exact lost (unsent_silent (if_neg fun left => none (if_pos left)))
      obtain ⟨made, _⟩ | ⟨_, none⟩ := unsent_cases_one called
      · exact absurd made lost
      · obtain ⟨face, retryTable, pendingInterests, cont, answered⟩ :=
          @onTimeout_frame jndn other throwsAt (before.settle other)
        have one := List.length_erase_of_mem member
        have positive := List.length_pos_of_mem member
        have settled : (Event.settled before (.timeout other throwsAt)).face = before.face.erase other := rfl
        rw [none, List.append_nil, settled] at sent
        refine List.eq_nil_of_length_eq_zero ?_
        have queue : (onTimeout jndn other throwsAt (before.settle other)).iQueue = before.iQueue := by
          rw [answered]
          rfl
        rw [List.length_append, sent, queue]
        omega
  | main throwsAt =>
      refine ⟨(uncounted.main moved).1, ?_⟩
      obtain ⟨other, rest, face, pendingInterests, queued, called, rfl⟩ | ⟨other, here, _⟩ | ⟨called, _⟩ :=
        @mainStep_cases jndn client before after throwsAt (step_main.mp moved).2
      · obtain ⟨made, _⟩ | ⟨_, none⟩ := unsent_cases_one called
        · exact absurd made lost
        · rw [none, List.append_nil] at sent
          have sent : face = before.face := sent
          rw [queued, List.length_cons] at single
          change face ++ rest = []
          refine List.eq_nil_of_length_eq_zero ?_
          rw [List.length_append, sent]
          omega
      · have idle := uncounted.idle
        rw [here] at idle
        cases idle
      · exact absurd (unsent_silent called) lost
  | fileManager => exact absurd (unsent_silent rfl) lost

/-- Then no Data and no timeout comes any more. -/
theorem Countless.step (countless : Countless name before) (moved : client.step jndn before event = some after) :
    Countless name after := by
  obtain ⟨empty, queue⟩ := List.append_eq_nil_iff.mp countless.nothing
  cases event with
  | data other content throwsAt =>
      obtain ⟨_, _, member, _⟩ := step_data.mp moved
      simp [empty] at member
  | timeout other throwsAt =>
      obtain ⟨_, _, member, _⟩ := step_timeout.mp moved
      simp [empty] at member
  | main throwsAt =>
      refine ⟨(countless.uncounted.main moved).1, ?_⟩
      obtain ⟨other, rest, face, pendingInterests, queued, _⟩ | ⟨other, here, _⟩ | ⟨_, main, filePass, _, _, rfl⟩ :=
        @mainStep_cases jndn client before after throwsAt (step_main.mp moved).2
      · simp [queue] at queued
      · have idle := countless.uncounted.idle
        rw [here] at idle
        cases idle
      · exact countless.nothing
  | fileManager =>
      obtain ⟨_, moved⟩ := step_fileManager.mp moved
      have absent := (fileManagerStep_isSome moved).trans countless.uncounted.absent
      obtain ⟨fileManager, pendingFile, filePass, cont, written, rfl⟩ := fileManagerStep_frame moved
      exact ⟨{ countless.uncounted with absent }, countless.nothing⟩

/-- The file is never counted nor opened, whatever happens next. -/
theorem Countless.run {events : List Event} (countless : Countless name before)
    (ran : (client.system jndn).run before events = some after) :
    after.max ≤ 0 ∧ after.pendingFile.isSome = false ∧ after.face = [] := by
  have last : Countless name after :=
    @System.run_records _ _ (client.system jndn) (fun _ => Countless name)
      (fun countless moved => countless.step moved) [] _ _ _ countless ran
  exact ⟨last.uncounted.few, last.uncounted.absent, (List.append_eq_nil_iff.mp last.nothing).1⟩

/-- A client with a file, whose first name `onData` does not take for one of the benchmark. -/
structure Fetches (jndn : Jndn) (client : Client) (name : Name) : Prop where
  asked : client.interests jndn = [name]
  apart : name[1]?.map jndn.toEscapedString ≠ some "benchmark".toList

/-- A download before and after its count, whatever sends failed so far. -/
def Loading (jndn : Jndn) (client : Client) (name : Name) (state : State) : Prop :=
  Uncounted name state ∨ ∃ target : Target, target.name = name ∧ Downloads jndn client target ∧
    Counted jndn target state

theorem loading_initial (fetches : Fetches jndn client name) : Loading jndn client name (.initial jndn client) := by
  refine .inl ⟨le_rfl, rfl, rfl, rfl, ?_⟩
  simp [State.initial, fetches.asked]

theorem loading_step (fetches : Fetches jndn client name) (loading : Loading jndn client name before)
    (moved : client.step jndn before event = some after) :
    Loading jndn client name after ∧ Decided jndn client name before event after := by
  obtain uncounted | ⟨target, rfl, downloads, counted⟩ := loading
  · have waits : Uncounted name after ∧ SegmentsSent jndn client name before event →
        Loading jndn client name after ∧ Decided jndn client name before event after := fun same =>
      ⟨.inl same.1, fun _ => iff_of_true (.inr same.1.kept) same.2⟩
    cases event with
    | data other content throwsAt =>
        obtain same | ⟨target, rfl, downloads, counted, decided⟩ :=
          uncounted.data fetches.asked fetches.apart moved
        · exact waits same
        · exact ⟨.inr ⟨target, rfl, downloads, counted⟩, decided⟩
    | timeout other throwsAt => exact waits (uncounted.timeout moved)
    | main throwsAt => exact waits (uncounted.main moved)
    | fileManager =>
        obtain ⟨_, moved⟩ := step_fileManager.mp moved
        have absent := (fileManagerStep_isSome moved).trans uncounted.absent
        obtain ⟨fileManager, pendingFile, filePass, cont, written, rfl⟩ := fileManagerStep_frame moved
        exact waits ⟨{ uncounted with absent }, segmentsSent_silent rfl (by simp [Event.answers])⟩
  · obtain ⟨next, decided⟩ := counted_step downloads counted moved
    exact ⟨.inr ⟨target, rfl, downloads, next⟩, decided⟩

theorem loading_inductive (fetches : Fetches jndn client name) :
    (client.system jndn).Inductive (Loading jndn client name) where
  start := fun start => start ▸ loading_initial fetches
  step := fun loading moved => (loading_step fetches loading moved).1

end Segments

/-! ## Every run -/

/-- A send that throws is not made up for: in every run, a download has every
segment it passed received or in flight, and the benchmark its whole window
outstanding or still to be sent, exactly as long as no such Interest stays
unsent and none that the face keeps all the same is answered. -/
theorem sends_kept_iff (jndn : Jndn) (client : Client) (events : List Event) :
    (∀ name, Fetches jndn client name →
      ((client.system jndn).Throughout (fun state => state.exited = true ∨ Kept jndn name state) (.initial jndn client)
        events ↔ (client.system jndn).Along (SegmentsSent jndn client name) (.initial jndn client) events)) ∧
    (Benchmarks jndn client →
      ((client.system jndn).Throughout (fun state => state.exited = true ∨ Balanced client state) (.initial jndn client)
        events ↔ (client.system jndn).Along (AllSent jndn client) (.initial jndn client) events)) := by
  constructor
  · intro name fetches
    refine System.throughout_iff_along (fun loading held moved => ?_) (loading_initial fetches)
      (.inr fun index below => ?_) events
    · obtain ⟨next, decided⟩ := loading_step fetches loading moved
      exact ⟨next, decided (held.resolve_left (Bool.eq_false_iff.mp (running_of_step moved)))⟩
    · exact absurd below (by simp only [State.initial]; omega)
  · intro benchmarks
    refine System.throughout_iff_along (fun benchmarking held moved => ?_) (benchmarking_initial benchmarks)
      (.inr ?_) events
    · exact ⟨(benchmarking_inductive benchmarks).step benchmarking moved,
        balanced_step benchmarks benchmarking (held.resolve_left (Bool.eq_false_iff.mp (running_of_step moved))) moved⟩
    · simp [Balanced, State.initial, interests, benchmarks.chosen]

def sampleBenchmark : Client where
  namePrefix := "/debit".toList
  window := 1
  fileName := none
  localFile _ := none

theorem benchmarks_sample : Benchmarks .reference sampleBenchmark where
  chosen := rfl
  selected number := by
    have split : (Reference.nameOfUri ("/debit".toList ++ "/benchmark/".toList ++ decimal number))[1]? =
        some (.generic (ascii "benchmark")) := rfl
    change Option.map Jndn.reference.toEscapedString
      (Reference.nameOfUri ("/debit".toList ++ "/benchmark/".toList ++ decimal number))[1]? = _
    rw [split]
    decide +kernel

theorem fetches_sample : Fetches .reference (sampleClient none) sampleTarget.name where
  asked := (downloads_sample none).asked
  apart := by decide +kernel

instance : Decidable (AllSent jndn client state event) := inferInstanceAs (Decidable (_ ∧ _))

theorem AllSent.segments (sent : AllSent jndn client state event) (name : Name) :
    SegmentsSent jndn client name state event := segmentsSent_made sent.1 sent.2

/-- A file of three segments and a window of two: the Data of segment 0 arrives,
and the Interest for segment 2 throws but stays with the face. It times out, is
sent again and answered. -/
def sampleRetry : List Event :=
  List.replicate 3 (.main none) ++ [.data sampleTarget.name (ascii "3") none,
    .data (sampleTarget.segmentName .reference 0) [65] none, .main none, .main (some ⟨0, true⟩),
    .timeout (sampleTarget.segmentName .reference 2) none, .data (sampleTarget.segmentName .reference 2) [67] none]

/-- The same in a benchmark. -/
def sampleAgain : List Event :=
  [.main (some ⟨0, true⟩), .main none, .main none, .timeout (benchmarkName .reference sampleBenchmark 1) none,
    .data (benchmarkName .reference sampleBenchmark 1) [] none]

theorem sends_kept_sample :
    (((sampleClient none).system .reference).run (.initial .reference (sampleClient none)) sampleRetry).isSome ∧
      ((sampleClient none).system .reference).Throughout
        (fun state => state.exited = true ∨ Kept .reference sampleTarget.name state)
        (.initial .reference (sampleClient none)) sampleRetry ∧
      ((sampleBenchmark.system .reference).run (.initial .reference sampleBenchmark) sampleAgain).isSome ∧
      (sampleBenchmark.system .reference).Throughout
        (fun state => state.exited = true ∨ Balanced sampleBenchmark state) (.initial .reference sampleBenchmark)
        sampleAgain := by
  refine ⟨by decide +kernel, ?_, by decide +kernel, ?_⟩
  · apply ((sends_kept_iff .reference (sampleClient none) sampleRetry).1 _ fetches_sample).mpr
    have along : ((sampleClient none).system .reference).Along (AllSent .reference (sampleClient none))
        (.initial .reference (sampleClient none)) sampleRetry := by decide +kernel
    exact along.imp fun sent => sent.segments _
  · exact ((sends_kept_iff .reference sampleBenchmark _).2 benchmarks_sample).mpr (by decide +kernel)

/-- A file of three segments and a window of two: the first call of the loop after the count throws. -/
def sampleLoss (kept : Bool) : List Event :=
  List.replicate 3 (.main none) ++ [.data sampleTarget.name (ascii "3") (some ⟨0, kept⟩)]

/-- The only Interest of a benchmark is not sent, or it is kept and answered. -/
def sampleIdle (kept : Bool) : List Event :=
  .main (some ⟨0, kept⟩) :: List.replicate 2 (.main none) ++
    if kept then [.data (benchmarkName .reference sampleBenchmark 1) [] none] else []

/-- Whatever jNDN does with the Interest, `next` has counted segment 1 all the
same, and nobody asks for it. The benchmark has nothing left to wait for. -/
theorem send_lost :
    (∀ kept, ∃ state, ((sampleClient none).system .reference).run (.initial .reference (sampleClient none))
        (sampleLoss kept) = some state ∧ state.exited = false ∧ state.next = 2 ∧ state.max = 3 ∧
        state.face = (if kept then [sampleTarget.segmentName .reference 0] else []) ∧
        ¬Kept .reference sampleTarget.name state) ∧
      ∀ kept, ∃ state, (sampleBenchmark.system .reference).run (.initial .reference sampleBenchmark) (sampleIdle kept) =
        some state ∧ state.exited = false ∧ state.face = [] ∧ ¬Balanced sampleBenchmark state := by
  constructor
  · intro kept
    have counters : ∀ kept, (((sampleClient none).system .reference).run (.initial .reference (sampleClient none))
        (sampleLoss kept)).map (fun state => (state.exited, state.next, state.max)) = some (false, 2, 3) := by
      decide +kernel
    have segments : ∀ kept, (((sampleClient none).system .reference).run (.initial .reference (sampleClient none))
        (sampleLoss kept)).map (fun state => (state.face, state.received)) =
        some (if kept then [sampleTarget.segmentName .reference 0] else [], []) := by decide +kernel
    obtain ⟨state, ran, same⟩ := Option.map_eq_some_iff.mp (counters kept)
    have segments := segments kept
    rw [ran] at segments
    simp only [Option.map_some, Option.some.injEq, Prod.mk.injEq] at same segments
    obtain ⟨alive, next, max⟩ := same
    obtain ⟨face, received⟩ := segments
    refine ⟨state, ran, alive, next, max, face, fun covered => ?_⟩
    obtain ⟨content, arrived⟩ | sent := covered 1 (by rw [next, max]; decide)
    · simp [received] at arrived
    · have missing : ∀ kept : Bool, sampleTarget.name.take 3 ++ [Jndn.reference.fromSegment ((1 : Nat) : Int)] ∉
          if kept then [sampleTarget.segmentName .reference 0] else [] := by decide +kernel
      exact missing kept (face ▸ sent)
  · intro kept
    have ran : ∀ kept, ((sampleBenchmark.system .reference).run (.initial .reference sampleBenchmark)
        (sampleIdle kept)).map (fun state => (state.exited, state.face, state.iQueue)) = some (false, [], []) := by
      decide +kernel
    obtain ⟨state, ran, same⟩ := Option.map_eq_some_iff.mp (ran kept)
    simp only [Prod.mk.injEq] at same
    obtain ⟨alive, face, queue⟩ := same
    refine ⟨state, ran, alive, face, fun balanced => ?_⟩
    rw [Balanced, face, queue] at balanced
    exact absurd balanced (by decide)

end Ndnperf.Java.Client

import Ndnperf.Java.BenchmarkNames
import Ndnperf.Java.ClientEnd

namespace Ndnperf.Java.Client

open Ndn Library.Tokens Library.Transition List

/-! The keys of `pendingInterests` beside the Interests that are outstanding.
Nothing removes a key, and `nextDownloadInterest` puts one behind the last
segment without sending anything. -/

variable {jndn : Jndn} {component : Text → Option Component} {client : Client} {state before after : State}
  {event : Event} {name : Name}

def uris (jndn : Jndn) (names : List Name) : Finset Text := (names.map jndn.toUri).toFinset

theorem mem_uris {names : List Name} {uri : Text} : uri ∈ uris jndn names ↔ ∃ name ∈ names, jndn.toUri name = uri := by
  simp [uris]

theorem uris_append (first second : List Name) : uris jndn (first ++ second) = uris jndn first ∪ uris jndn second := by
  simp [uris]

theorem uris_perm {first second : List Name} (same : first ~ second) : uris jndn first = uris jndn second :=
  List.toFinset_eq_of_perm _ _ (same.map _)

theorem uris_subset {first second : List Name} (subset : first ⊆ second) : uris jndn first ⊆ uris jndn second := by
  intro uri member
  obtain ⟨name, inside, same⟩ := mem_uris.mp member
  exact mem_uris.mpr ⟨name, subset inside, same⟩

theorem card_uris_le (names : List Name) : (uris jndn names).card ≤ names.length :=
  (List.toFinset_card_le _).trans_eq (length_map _)

/-! ## What a step puts and what it ends -/

/-- The Interests that are outstanding, with the one whose Data is still being
handled. Between two callbacks there is no such Data. -/
def State.outstanding (state : State) : List Name := state.face ++ state.main.handled.toList

def sent (jndn : Jndn) (client : Client) (state : State) (event : Event) : List Name :=
  passed event.throwsAt (calls jndn client state event)

def put (jndn : Jndn) (client : Client) (state : State) (event : Event) : List Name :=
  entered event.throwsAt (calls jndn client state event)

/-- The name behind the last segment, which is put but not sent. -/
def skipped (jndn : Jndn) (state : State) : Event → List Name
  | .main _ =>
      match state.main with
      | .request name => if state.next < state.max then [] else [name.take 3 ++ [jndn.fromSegment state.next]]
      | _ => []
  | .data _ _ _ => []
  | .timeout _ _ => []
  | .fileManager => []

/-- A Data that `nextDownloadInterest` hands to the file manager before it asks for another. -/
def Stores (jndn : Jndn) (state : State) (name : Name) : Prop :=
  jndn.toUri name ∈ state.pendingInterests ∧ name[1]?.map jndn.toEscapedString = some "download".toList ∧
    (name[3]?.bind jndn.toSegment).isSome ∧ state.pendingFile.isSome

instance : Decidable (Stores jndn state name) := inferInstanceAs (Decidable (_ ∧ _))

/-- The name whose callback ends with the step. -/
def finished (jndn : Jndn) (state : State) : Event → List Name
  | .data name _ _ => if Stores jndn state name then [] else [name]
  | .timeout name _ => if 0 < state.retries jndn name then [name] else []
  | .main _ =>
      match state.main with
      | .request name => [name]
      | _ => []
  | .fileManager => []

/-- The keys are the names of the Interests that are outstanding. -/
structure Tracks (jndn : Jndn) (client : Client) (state : State) : Prop where
  keys : state.pendingInterests = uris jndn state.outstanding
  known : ∀ name ∈ state.face, jndn.toUri name ∈ state.pendingInterests
  window : (state.pendingInterests.card : Int) ≤ client.window

/-- The name whose callback ends, and one that is put without being sent, are
those of Interests that stay outstanding or go out; those that go out are put,
or were put before; without a window none does. -/
def Renewed (jndn : Jndn) (client : Client) (state : State) (event : Event) : Prop :=
  uris jndn (finished jndn state event ++ skipped jndn state event) ⊆
      uris jndn ((event.settled state).face ++ sent jndn client state event) ∧
    uris jndn (sent jndn client state event) ⊆
      state.pendingInterests ∪ uris jndn (put jndn client state event ++ skipped jndn state event) ∧
    (1 ≤ client.window ∨ sent jndn client state event = [])

instance : Decidable (Renewed jndn client state event) := inferInstanceAs (Decidable (_ ∧ _))

/-! ## The handlers -/

theorem nextDownloadInterest_main (content : Bytes) (throwsAt : Option Failure) :
    (client.nextDownloadInterest jndn name content throwsAt state).main =
      if (name[3]?.bind jndn.toSegment).isSome ∧ state.pendingFile.isSome then .release name else state.main := by
  rcases name with _ | ⟨first, _ | ⟨second, _ | ⟨file, _ | ⟨last, rest⟩⟩⟩⟩
  · simp [nextDownloadInterest]
  · simp [nextDownloadInterest]
  · simp [nextDownloadInterest]
  · simp only [nextDownloadInterest]
    cases parseLong (jndn.blobText content) with
    | none => simp
    | some max =>
        by_cases few : max ≤ 0
        · simp [few]
        · simp [few, expressLoop_eq]
  · simp only [nextDownloadInterest]
    cases stored : jndn.toSegment last with
    | none => simp [stored]
    | some segment => cases opened : state.pendingFile <;> simp [stored]

theorem onData_main (content : Bytes) (throwsAt : Option Failure) :
    (client.onData jndn name content throwsAt state).main = if Stores jndn state name then .release name
      else state.main := by
  have different : "download".toList ≠ "benchmark".toList := by decide
  by_cases known : jndn.toUri name ∈ state.pendingInterests
  · simp only [onData, known, if_true, Stores, true_and]
    cases selected : name[1]?.map jndn.toEscapedString with
    | none => simp
    | some selector =>
        by_cases benchmark : selector = "benchmark".toList
        · have other : ¬selector = "download".toList := fun same => different (same.symm.trans benchmark)
          obtain ⟨face, pendingInterests, requested, same⟩ := @nextBenchmarkInterest_frame jndn client throwsAt
            { state with retryTable := Function.update state.retryTable (jndn.toUri name) none }
          simp only [if_pos benchmark, same, Option.some.injEq, other, false_and, if_false]
        · by_cases download : selector = "download".toList
          · simp only [if_neg benchmark, if_pos download, nextDownloadInterest_main, Option.some.injEq]
            simp only [download, true_and]
          · simp only [if_neg benchmark, Option.some.injEq, download, false_and, if_false]
  · simp [onData, known, Stores]

theorem uris_nil : uris jndn [] = ∅ := rfl

theorem uris_singleton : uris jndn [name] = {jndn.toUri name} := rfl

/-- A single send, which enters its name unless it throws. -/
theorem attempt_keys {throwsAt : Option Failure} {failed : Bool → State} {made : State} {keys : Finset Text}
    (left : ∀ kept, (failed kept).pendingInterests = keys)
    (through : made.pendingInterests = insert (jndn.toUri name) keys) :
    (attempt throwsAt failed made).pendingInterests = keys ∪ uris jndn (entered throwsAt [name]) := by
  obtain ⟨kept, thrown, _, none⟩ | ⟨same, _, all⟩ := attempt_cases throwsAt failed made name
  · rw [thrown, left, none, uris_nil, Finset.union_empty]
  · rw [same, through, all, uris_singleton, Finset.union_comm, Finset.insert_eq]

theorem nextDownloadInterest_keys (content : Bytes) (throwsAt : Option Failure) :
    (client.nextDownloadInterest jndn name content throwsAt state).pendingInterests =
      state.pendingInterests ∪ uris jndn (entered throwsAt (callsOfDownload jndn state name content)) := by
  have silent : state.pendingInterests ∪ uris jndn (entered throwsAt []) = state.pendingInterests := by
    rw [entered_nil, uris_nil, Finset.union_empty]
  rcases name with _ | ⟨first, _ | ⟨second, _ | ⟨file, _ | ⟨last, rest⟩⟩⟩⟩
  · exact silent.symm
  · exact silent.symm
  · exact silent.symm
  · simp only [nextDownloadInterest, callsOfDownload]
    cases parseLong (jndn.blobText content) with
    | none => exact silent.symm
    | some max =>
        by_cases few : max ≤ 0
        · have none : (min state.next max).toNat = 0 := by omega
          simp only [few, if_true, none]
          exact silent.symm
        · simp only [few, if_false, expressLoop_eq]
          rfl
  · simp only [nextDownloadInterest, callsOfDownload, silent]
    split <;> rfl

theorem onData_keys (content : Bytes) (throwsAt : Option Failure) :
    (client.onData jndn name content throwsAt state).pendingInterests =
      state.pendingInterests ∪ uris jndn (entered throwsAt
        (calls jndn client state (.data name content throwsAt))) := by
  have silent : state.pendingInterests ∪ uris jndn (entered throwsAt []) = state.pendingInterests := by
    rw [entered_nil, uris_nil, Finset.union_empty]
  by_cases known : jndn.toUri name ∈ state.pendingInterests
  · simp only [onData, calls, known, if_true]
    cases selected : name[1]?.map jndn.toEscapedString with
    | none => exact silent.symm
    | some selector =>
        simp only [Option.some.injEq]
        by_cases benchmark : selector = "benchmark".toList
        · simp only [if_pos benchmark, nextBenchmarkInterest]
          exact attempt_keys (fun _ => rfl) rfl
        · by_cases download : selector = "download".toList
          · simp only [if_neg benchmark, if_pos download]
            exact nextDownloadInterest_keys content throwsAt
          · simp only [if_neg benchmark, if_neg download]
            exact silent.symm
  · simp only [onData, calls, known, if_false]
    exact silent.symm

theorem onTimeout_keys (throwsAt : Option Failure) :
    (onTimeout jndn name throwsAt state).pendingInterests =
      state.pendingInterests ∪ uris jndn (entered throwsAt (calls jndn client state (.timeout name throwsAt))) := by
  by_cases left : 0 < state.retries jndn name
  · simp only [onTimeout, calls, left, if_true]
    exact attempt_keys (fun _ => rfl) rfl
  · simp only [onTimeout, calls, left, if_false, entered_nil, uris_nil, Finset.union_empty]

theorem mainStep_keys {throwsAt : Option Failure} (moved : mainStep jndn throwsAt before = some after) :
    after.pendingInterests = before.pendingInterests ∪
      uris jndn (entered throwsAt (calls jndn client before (.main throwsAt)) ++ skipped jndn before
        (.main throwsAt)) := by
  cases here : before.main with
  | poll =>
      cases queued : before.iQueue with
      | nil =>
          simp only [mainStep, here, queued, Option.some.injEq] at moved
          subst moved
          simp only [calls, skipped, here, queued, take_nil, entered_nil, append_nil, uris_nil, Finset.union_empty]
      | cons name rest =>
          simp only [mainStep, here, queued, Option.some.injEq] at moved
          subst moved
          simp only [calls, skipped, here, queued, take_succ_cons, take_zero, append_nil]
          exact attempt_keys (fun _ => rfl) rfl
  | request name =>
      simp only [mainStep, here, requestNext, Int.add_one_le_iff, Option.some.injEq] at moved
      subst moved
      simp only [calls, skipped, here]
      by_cases further : before.next < before.max
      · simp only [further, if_true, append_nil]
        exact attempt_keys (fun _ => rfl) rfl
      · simp only [further, if_false, entered_nil, nil_append, uris_singleton]
        rw [Finset.union_comm, ← Finset.insert_eq]
  | ended =>
      simp only [mainStep, here] at moved
      cases moved
  | loop | events | release =>
      simp only [mainStep, here, Option.some.injEq] at moved
      subst moved
      simp only [calls, skipped, here, entered_nil, append_nil, uris_nil, Finset.union_empty]

/-- A name is put when its call has returned, and the one behind the last segment as well. -/
theorem keys_step (moved : client.step jndn before event = some after) :
    after.pendingInterests =
      before.pendingInterests ∪ uris jndn (put jndn client before event ++ skipped jndn before event) := by
  cases event with
  | data name content throwsAt =>
      obtain ⟨_, _, _, rfl⟩ := step_data.mp moved
      rw [skipped, append_nil]
      exact onData_keys content throwsAt
  | timeout name throwsAt =>
      obtain ⟨_, _, _, rfl⟩ := step_timeout.mp moved
      rw [skipped, append_nil]
      exact @onTimeout_keys jndn client (before.settle name) name throwsAt
  | main throwsAt => exact mainStep_keys (step_main.mp moved).2
  | fileManager =>
      obtain ⟨fileManager, pendingFile, filePass, cont, written, rfl⟩ :=
        fileManagerStep_frame (step_fileManager.mp moved).2
      exact (Finset.union_empty _).symm

/-! ## The Interests that stay -/

/-- An Interest stays outstanding unless its callback ends, and a Data is not
still being handled when it does. -/
structure Ends (jndn : Jndn) (before : State) (event : Event) (after : State) : Prop where
  stays : before.outstanding ~ finished jndn before event ++ ((event.settled before).face ++ after.main.handled.toList)
  idle : finished jndn before event ++ skipped jndn before event = [] ∨ after.main.handled = none

theorem Ends.data {content : Bytes} {throwsAt : Option Failure}
    (moved : client.step jndn before (.data name content throwsAt) = some after) :
    Ends jndn before (.data name content throwsAt) after := by
  obtain ⟨_, here, member, rfl⟩ := step_data.mp moved
  have main : (client.onData jndn name content throwsAt (before.settle name)).main =
      if Stores jndn before name then .release name else before.main := onData_main content throwsAt
  have free : before.main.handled = none := congrArg MainPc.handled here
  have settled : before.face ~ name :: before.face.erase name := perm_cons_erase member
  by_cases stores : Stores jndn before name
  · rw [if_pos stores] at main
    refine ⟨?_, .inl (by simp [finished, stores, skipped])⟩
    rw [State.outstanding, free, main]
    simp only [finished, stores, if_true, MainPc.handled, Option.toList_none, append_nil,
      Option.toList_some, nil_append]
    exact settled.trans (perm_append_singleton name _).symm
  · rw [if_neg stores] at main
    refine ⟨?_, .inr (main ▸ free)⟩
    rw [State.outstanding, main, free]
    simp only [finished, stores, if_false, Option.toList_none, append_nil, singleton_append]
    exact settled

/-- A timeout ends the program exactly if the name has no retries left. -/
theorem exited_timeout {throwsAt : Option Failure}
    (moved : client.step jndn before (.timeout name throwsAt) = some after) :
    after.exited = true ↔ ¬0 < before.retries jndn name := by
  have running := running_of_step moved
  obtain ⟨_, _, _, rfl⟩ := step_timeout.mp moved
  obtain ⟨face, retryTable, pendingInterests, cont, same⟩ := @onTimeout_frame jndn name throwsAt (before.settle name)
  rw [same]
  change (if 0 < before.retries jndn name then before.exited else true) = true ↔ _
  by_cases left : 0 < before.retries jndn name
  · simpa [left] using running
  · simp [left]

theorem Ends.timeout {throwsAt : Option Failure} (moved : client.step jndn before (.timeout name throwsAt) = some after)
    (running : after.exited = false) : Ends jndn before (.timeout name throwsAt) after := by
  have left : 0 < before.retries jndn name := by
    by_contra aborts
    simp [(exited_timeout moved).mpr aborts] at running
  obtain ⟨_, here, member, rfl⟩ := step_timeout.mp moved
  have free : before.main.handled = none := congrArg MainPc.handled here
  obtain ⟨face, retryTable, pendingInterests, cont, same⟩ := @onTimeout_frame jndn name throwsAt (before.settle name)
  have main : (onTimeout jndn name throwsAt (before.settle name)).main = before.main := by
    rw [same]
    rfl
  refine ⟨?_, .inr (main ▸ free)⟩
  rw [State.outstanding, main, free]
  simp only [finished, left, if_true, Option.toList_none, append_nil, singleton_append]
  exact perm_cons_erase member

theorem Ends.main {throwsAt : Option Failure} (moved : client.step jndn before (.main throwsAt) = some after) :
    Ends jndn before (.main throwsAt) after := by
  by_cases requesting : ∃ name, before.main = .request name
  · obtain ⟨name, here⟩ := requesting
    obtain ⟨_, rfl⟩ := (step_request here).mp moved
    obtain ⟨face, pendingInterests, requested, same⟩ := @requestNext_frame jndn name throwsAt before
    rw [same]
    refine ⟨?_, .inr rfl⟩
    simp only [State.outstanding, here, finished, MainPc.handled, Option.toList_some, Option.toList_none, append_nil]
    exact perm_append_singleton name _
  · have elsewhere : ∀ name, before.main ≠ .request name := fun name here => requesting ⟨name, here⟩
    have quiet := Quiet.main moved elsewhere
    have ends : finished jndn before (.main throwsAt) = [] ∧ skipped jndn before (.main throwsAt) = [] ∧
        after.main.handled = before.main.handled := by
      cases here : before.main with
      | request name => exact absurd here (elsewhere name)
      | release name =>
          obtain ⟨_, moved⟩ := step_main.mp moved
          simp only [mainStep, here, Option.some.injEq] at moved
          subst moved
          simp [finished, skipped, here, MainPc.handled]
      | poll | loop | events | ended =>
          have idle := quiet.handled
          rw [here] at idle
          exact ⟨by simp [finished, here], by simp [skipped, here], idle.elim id id⟩
    obtain ⟨none, unskipped, handled⟩ := ends
    refine ⟨?_, .inl (by rw [none, unskipped]; rfl)⟩
    rw [none, nil_append, State.outstanding, handled]
    exact Perm.refl _

theorem ends_step (moved : client.step jndn before event = some after) (running : after.exited = false) :
    Ends jndn before event after := by
  cases event with
  | data name content throwsAt => exact .data moved
  | timeout name throwsAt => exact .timeout moved running
  | main throwsAt => exact .main moved
  | fileManager =>
      obtain ⟨fileManager, pendingFile, filePass, cont, written, rfl⟩ :=
        fileManagerStep_frame (step_fileManager.mp moved).2
      exact ⟨Perm.refl _, .inl rfl⟩

/-- The keys stay those of the outstanding Interests exactly if what ends, and
what is put for nothing, is outstanding all the same, and what goes out is put. -/
theorem keys_iff (keys : before.pendingInterests = uris jndn before.outstanding)
    (moved : client.step jndn before event = some after) (running : after.exited = false) :
    after.pendingInterests = uris jndn after.outstanding ↔
      uris jndn (finished jndn before event ++ skipped jndn before event) ⊆
          uris jndn ((event.settled before).face ++ sent jndn client before event) ∧
        uris jndn (sent jndn client before event) ⊆
          before.pendingInterests ∪ uris jndn (put jndn client before event ++ skipped jndn before event) := by
  have ends := ends_step moved running
  have face : after.face = (event.settled before).face ++ sent jndn client before event := (step_sends moved).face
  have fewer : uris jndn (put jndn client before event) ⊆ uris jndn (sent jndn client before event) :=
    uris_subset (entered_sublist _ _).subset
  rw [keys_step moved, keys, uris_perm ends.stays, State.outstanding, face]
  simp only [uris_append]
  generalize uris jndn (put jndn client before event) = entered at fewer ⊢
  generalize uris jndn (sent jndn client before event) = gone at fewer ⊢
  generalize uris jndn (event.settled before).face = settled
  obtain nothing | idle := ends.idle
  · obtain ⟨none, unskipped⟩ := append_eq_nil_iff.mp nothing
    simp only [none, unskipped, uris_nil, Finset.empty_union, Finset.union_empty, Finset.empty_subset, true_and]
    generalize uris jndn after.main.handled.toList = handled
    constructor
    · intro same uri member
      rw [same]
      exact Finset.mem_union_left _ (Finset.mem_union_right _ member)
    · intro put
      refine Finset.Subset.antisymm ?_ ?_ <;> grind
  · simp only [idle, Option.toList_none, uris_nil, Finset.union_empty]
    generalize uris jndn (finished jndn before event) = finished
    generalize uris jndn (skipped jndn before event) = skipped
    constructor
    · intro same
      grind
    · intro both
      refine Finset.Subset.antisymm ?_ ?_ <;> grind

/-! ## The window -/

/-- A name whose Data `nextDownloadInterest` takes for the number of segments. -/
def Counts (jndn : Jndn) (name : Name) : Prop :=
  name.length = 3 ∧ name[1]?.map jndn.toEscapedString = some "download".toList

theorem not_counts_benchmark (uris : Uris jndn component) (client : Client) {number : Int} (positive : 0 ≤ number) :
    ¬Counts jndn (benchmarkName jndn client number) := by
  rintro ⟨three, selected⟩
  obtain ⟨first, second, third, same⟩ := length_eq_three.mp three
  lift number to Nat using positive
  rw [same] at selected
  have named : Target.name ⟨first, second, third⟩ = benchmarkName jndn client number := same.symm
  exact uris.benchmarkName_uncounted client number named (Option.some.inj selected)

theorem not_counts_deep {component : Component} (deep : 3 ≤ name.length) :
    ¬Counts jndn (name.take 3 ++ [component]) := by
  rintro ⟨three, _⟩
  simp only [length_append, length_take, length_singleton] at three
  omega

theorem calls_data (content : Bytes) (throwsAt : Option Failure) :
    calls jndn client state (.data name content throwsAt) = [] ∨
      calls jndn client state (.data name content throwsAt) = [benchmarkName jndn client state.next] ∧
        ¬Stores jndn state name ∨
      Counts jndn name ∧ ∃ limit ≤ state.next.toNat, calls jndn client state (.data name content throwsAt) =
        (range limit).map fun segment : Nat => name ++ [jndn.fromSegment segment] := by
  have different : "download".toList ≠ "benchmark".toList := by decide
  simp only [calls]
  by_cases known : jndn.toUri name ∈ state.pendingInterests
  · simp only [known, if_true]
    by_cases benchmark : name[1]?.map jndn.toEscapedString = some "benchmark".toList
    · rw [if_pos benchmark]
      refine .inr (.inl ⟨rfl, fun stores => different ?_⟩)
      exact Option.some.inj (stores.2.1.symm.trans benchmark)
    · rw [if_neg benchmark]
      by_cases download : name[1]?.map jndn.toEscapedString = some "download".toList
      · rw [if_pos download]
        rcases name with _ | ⟨first, _ | ⟨second, _ | ⟨file, _ | ⟨last, rest⟩⟩⟩⟩
        · exact .inl rfl
        · exact .inl rfl
        · exact .inl rfl
        · simp only [callsOfDownload]
          cases parseLong (jndn.blobText content) with
          | none => exact .inl rfl
          | some max => exact .inr (.inr ⟨⟨rfl, download⟩, (min state.next max).toNat, by omega, rfl⟩)
        · exact .inl rfl
      · exact .inl (if_neg download)
  · exact .inl (if_neg known)

/-- There are no more Interests than the window has, or than the one that asks
for the number of segments. That one is alone, and the first. -/
structure Bounded (jndn : Jndn) (client : Client) (state : State) : Prop where
  next : client.window ≤ state.next
  size : (state.iQueue ++ state.outstanding).length ≤ max 1 client.window.toNat
  counts : ∀ name ∈ state.iQueue ++ state.face, Counts jndn name →
    state.iQueue ++ state.face = [name] ∧ state.next = client.window ∧ state.main.handled = none
  deep : ∀ name ∈ state.main.handled, 3 < name.length

theorem bounded_initial (uris : Uris jndn component) (client : Client) :
    Bounded jndn client (.initial jndn client) := by
  have queue : (State.initial jndn client).iQueue ++ (State.initial jndn client).face = client.interests jndn :=
    append_nil _
  have outstanding : (State.initial jndn client).outstanding = [] := rfl
  refine ⟨Int.le_refl _, ?_, ?_, by simp [State.initial, MainPc.handled]⟩
  · rw [outstanding, append_nil]
    change (client.interests jndn).length ≤ _
    cases chosen : client.fileName with
    | none =>
        rw [interests_benchmark chosen, length_map, length_range']
        exact Nat.le_max_right _ _
    | some file =>
        simp only [interests, chosen, length_singleton]
        exact Nat.le_max_left _ _
  · intro name member counts
    rw [queue] at member ⊢
    cases chosen : client.fileName with
    | none =>
        rw [interests_benchmark chosen] at member
        obtain ⟨number, _, rfl⟩ := mem_map.mp member
        exact absurd counts (not_counts_benchmark uris client (Int.natCast_nonneg number))
    | some file =>
        simp only [interests, chosen, mem_singleton] at member ⊢
        exact ⟨by rw [member], rfl, rfl⟩

theorem Bounded.quiet (bounded : Bounded jndn client before) (quiet : Quiet before after) :
    Bounded jndn client after := by
  have fewer := quiet.fewer.length_le
  refine ⟨quiet.next ▸ bounded.next, ?_, ?_, ?_⟩
  · have size := bounded.size
    simp only [State.outstanding, length_append] at size fewer ⊢
    obtain idle | same := quiet.handled
    · rw [idle, Option.toList_none, length_nil]
      omega
    · rw [same]
      omega
  · intro name member counts
    obtain ⟨only, next, idle⟩ := bounded.counts name (quiet.fewer.subset member) counts
    rw [only, length_singleton] at fewer
    obtain ⟨other, single⟩ := length_eq_one_iff.mp (Nat.le_antisymm fewer (length_pos_of_mem member))
    rw [single, mem_singleton] at member
    exact ⟨by rw [single, member], quiet.next.trans next, quiet.handled.elim id fun same => same.trans idle⟩
  · obtain idle | same := quiet.handled
    · simp [idle]
    · exact same ▸ bounded.deep

theorem Bounded.data (bounded : Bounded jndn client before) (uris : Uris jndn component) (opening : 0 ≤ client.window)
    {content : Bytes} {throwsAt : Option Failure}
    (moved : client.step jndn before (.data name content throwsAt) = some after) : Bounded jndn client after := by
  have sends := (step_sends moved).face
  obtain ⟨_, here, member, same⟩ := step_data.mp moved
  have stored : after.main = if Stores jndn before name then .release name else before.main := by
    rw [← same]
    exact onData_main content throwsAt
  obtain ⟨main, face, retryTable, pendingInterests, pendingFile, next, max, cont, requested, received,
      framed, later, _⟩ :=
    @onData_frame jndn client name content throwsAt (before.settle name)
  have queue : after.iQueue = before.iQueue := by rw [← same, framed]; rfl
  have counted : client.window ≤ after.next := by
    rw [← same, framed]
    exact bounded.next.trans later
  have free : before.main.handled = none := congrArg MainPc.handled here
  have one := length_erase_of_mem member
  have positive := length_pos_of_mem member
  have size := bounded.size
  simp only [State.outstanding, free, Option.toList_none, append_nil, length_append] at size
  have short := (passed_sublist throwsAt (calls jndn client before (.data name content throwsAt))).length_le
  have settled : ∀ other ∈ before.iQueue ++ before.face.erase name, ¬Counts jndn other := by
    intro other inside counts
    have subset : before.iQueue ++ before.face.erase name <+ before.iQueue ++ before.face := erase_sublist.append_left _
    obtain ⟨only, _⟩ := bounded.counts other (subset.subset inside) counts
    have alone := congrArg length only
    have some := length_pos_of_mem inside
    simp only [length_append, length_singleton] at alone some
    omega
  have uncounted : ∀ other ∈ calls jndn client before (.data name content throwsAt), ¬Counts jndn other := by
    intro other called
    obtain none | ⟨built, _⟩ | ⟨⟨three, _⟩, limit, _, segments⟩ := @calls_data jndn client before name content throwsAt
    · simp [none] at called
    · rw [built, mem_singleton] at called
      exact called ▸ not_counts_benchmark uris client (opening.trans bounded.next)
    · rw [segments, mem_map] at called
      obtain ⟨segment, _, rfl⟩ := called
      have whole : name.take 3 = name := take_of_length_le (Nat.le_of_eq three)
      exact whole ▸ not_counts_deep (Nat.le_of_eq three.symm)
  refine ⟨counted, ?_, ?_, ?_⟩
  · simp only [State.outstanding, queue, sends, Event.settled, State.settle, Event.throwsAt, length_append]
    have idle : ¬Stores jndn before name → after.main.handled.toList.length = 0 := by
      intro other
      rw [stored, if_neg other, free]
      rfl
    have single : after.main.handled.toList.length ≤ 1 := by
      cases after.main.handled <;> simp
    obtain none | ⟨built, other⟩ | ⟨three, limit, within, segments⟩ :=
      @calls_data jndn client before name content throwsAt
    · have nothing := congrArg length none
      rw [length_nil] at nothing
      omega
    · have once := congrArg length built
      rw [length_singleton] at once
      have unstored := idle other
      omega
    · have rounds := congrArg length segments
      rw [length_map, length_range] at rounds
      obtain ⟨only, first, _⟩ := bounded.counts name (mem_append_right _ member) three
      have alone := congrArg length only
      rw [length_append, length_singleton] at alone
      rw [first] at within
      have unstored := idle fun stores => by
        have deep := stores.2.2.1
        simp [getElem?_eq_none_iff.mpr (Nat.le_of_eq three.1)] at deep
      omega
  · intro other inside counts
    rw [queue, sends, ← append_assoc] at inside
    obtain kept | called := mem_append.mp inside
    · exact absurd counts (settled other kept)
    · exact absurd counts (uncounted other ((passed_sublist _ _).subset called))
  · rw [stored]
    intro other handled
    by_cases stores : Stores jndn before name
    · simp only [stores, if_true, MainPc.handled, Option.mem_def, Option.some.injEq] at handled
      have deep := stores.2.2.1
      by_contra short
      rw [handled] at deep
      simp [getElem?_eq_none_iff.mpr (Nat.not_lt.mp short)] at deep
    · simp [stores, free] at handled

theorem Bounded.request (bounded : Bounded jndn client before) (here : before.main = .request name)
    {throwsAt : Option Failure} (moved : client.step jndn before (.main throwsAt) = some after) :
    Bounded jndn client after := by
  have sends := (step_sends moved).face
  obtain ⟨_, rfl⟩ := (step_request here).mp moved
  obtain ⟨face, pendingInterests, requested, same⟩ := @requestNext_frame jndn name throwsAt before
  have deep : 3 < name.length := bounded.deep name (by simp [here, MainPc.handled])
  have single : ∀ other ∈ calls jndn client before (.main throwsAt), other =
      name.take 3 ++ [jndn.fromSegment before.next] := by
    simp only [calls, here]
    split <;> simp
  have short : (passed throwsAt (calls jndn client before (.main throwsAt))).length ≤ 1 := by
    refine (passed_sublist _ _).length_le.trans ?_
    simp only [calls, here]
    split <;> simp
  rw [same] at sends ⊢
  change face = before.face ++ passed throwsAt (calls jndn client before (.main throwsAt)) at sends
  refine ⟨bounded.next.trans (Int.le_add_one (Int.le_refl _)), ?_, ?_, by simp [MainPc.handled]⟩
  · have size := bounded.size
    simp only [State.outstanding, here, MainPc.handled, Option.toList_some, Option.toList_none, append_nil,
      length_append, length_singleton] at size ⊢
    rw [sends, length_append]
    omega
  · intro other inside counts
    change other ∈ before.iQueue ++ face at inside
    rw [sends, ← append_assoc] at inside
    obtain kept | called := mem_append.mp inside
    · obtain ⟨_, _, idle⟩ := bounded.counts other kept counts
      simp [here, MainPc.handled] at idle
    · have following := single other ((passed_sublist _ _).subset called)
      exact absurd (following ▸ counts) (not_counts_deep (Nat.le_of_lt deep))

theorem bounded_step (uris : Uris jndn component) (opening : 0 ≤ client.window) (bounded : Bounded jndn client before)
    (moved : client.step jndn before event = some after) : Bounded jndn client after := by
  by_cases requesting : ∃ name throwsAt, before.main = .request name ∧ event = .main throwsAt
  · obtain ⟨name, throwsAt, here, rfl⟩ := requesting
    exact bounded.request here moved
  · cases event with
    | data name content throwsAt => exact bounded.data uris opening moved
    | timeout name throwsAt => exact bounded.quiet (.timeout moved)
    | main throwsAt => exact bounded.quiet (.main moved fun name here => requesting ⟨name, throwsAt, here, rfl⟩)
    | fileManager => exact bounded.quiet (.fileManager moved)

/-! ## Every run -/

/-- Only a timeout without retries left ends the program at once. -/
theorem exited_step (moved : client.step jndn before event = some after) (exited : after.exited = true) :
    ∃ name throwsAt, event = .timeout name throwsAt ∧ ¬0 < before.retries jndn name := by
  have running : before.exited ≠ true := Bool.eq_false_iff.mp (running_of_step moved)
  cases event with
  | data name content throwsAt =>
      obtain ⟨_, _, _, rfl⟩ := step_data.mp moved
      obtain ⟨main, face, retryTable, pendingInterests, pendingFile, next, max, cont, requested, received, same, _⟩ :=
        @onData_frame jndn client name content throwsAt (before.settle name)
      rw [same] at exited
      exact absurd exited running
  | timeout name throwsAt => exact ⟨name, throwsAt, rfl, (exited_timeout moved).mp exited⟩
  | main throwsAt =>
      obtain ⟨name, rest, face, pendingInterests, _, _, rfl⟩ | ⟨name, _, rfl⟩ | ⟨_, main, filePass, _, _, rfl⟩ :=
        @mainStep_cases jndn client before after throwsAt (step_main.mp moved).2
      · exact absurd exited running
      · obtain ⟨face, pendingInterests, requested, same⟩ := @requestNext_frame jndn name throwsAt before
        rw [same] at exited
        exact absurd exited running
      · exact absurd exited running
  | fileManager =>
      obtain ⟨fileManager, pendingFile, filePass, cont, written, rfl⟩ :=
        fileManagerStep_frame (step_fileManager.mp moved).2
      exact absurd exited running

/-- The rest of what is asked of the keys follows, as long as there is a window. -/
theorem tracks_of_keys (uris : Uris jndn component) (opening : 0 ≤ client.window) (bounded : Bounded jndn client before)
    (tracks : Tracks jndn client before) (moved : client.step jndn before event = some after)
    (running : after.exited = false) (keys : after.pendingInterests = Client.uris jndn after.outstanding)
    (windowed : 1 ≤ client.window ∨ sent jndn client before event = []) : Tracks jndn client after := by
  refine ⟨keys, fun name member => ?_, ?_⟩
  · rw [keys]
    exact mem_uris.mpr ⟨name, mem_append_left _ member, rfl⟩
  · obtain positive | silent := windowed
    · have size := (bounded_step uris opening bounded moved).size
      have card := @card_uris_le jndn after.outstanding
      rw [length_append] at size
      rw [keys]
      omega
    · have face : after.face = (event.settled before).face ++ sent jndn client before event := (step_sends moved).face
      have stays := (ends_step moved running).stays
      have fewer : after.pendingInterests ⊆ before.pendingInterests := by
        rw [keys, tracks.keys, uris_perm stays, State.outstanding, face, silent, append_nil]
        exact uris_subset (subset_append_right _ _)
      have card := Finset.card_le_card fewer
      have window := tracks.window
      omega

theorem tracks_step (uris : Uris jndn component) (opening : 0 ≤ client.window) (bounded : Bounded jndn client before)
    (tracks : Tracks jndn client before) (moved : client.step jndn before event = some after) :
    (after.exited = true ∨ Tracks jndn client after) ↔ Renewed jndn client before event := by
  cases exited : after.exited with
  | true =>
      obtain ⟨name, throwsAt, rfl, aborts⟩ := exited_step moved exited
      have silent : sent jndn client before (.timeout name throwsAt) = [] := by
        simp only [sent, calls, aborts, if_false, passed_nil]
      refine iff_of_true (.inl rfl) ⟨?_, ?_, .inr silent⟩
      · simp only [finished, skipped, aborts, if_false, append_nil, uris_nil]
        exact Finset.empty_subset _
      · rw [silent, uris_nil]
        exact Finset.empty_subset _
  | false =>
      simp only [Bool.false_eq_true, false_or]
      constructor
      · intro next
        obtain ⟨stays, put⟩ := (keys_iff tracks.keys moved exited).mp next.keys
        refine ⟨stays, put, ?_⟩
        by_contra closed
        obtain ⟨shut, some⟩ := not_or.mp closed
        obtain ⟨name, rest, same⟩ := exists_cons_of_ne_nil some
        have first : name ∈ sent jndn client before event := same ▸ mem_cons_self
        have outstanding : name ∈ after.face := (step_sends moved).face ▸ mem_append_right _ first
        have card := Finset.card_pos.mpr ⟨_, next.known name outstanding⟩
        have window := next.window
        omega
      · intro renewed
        exact tracks_of_keys uris opening bounded tracks moved exited
          ((keys_iff tracks.keys moved exited).mpr ⟨renewed.1, renewed.2.1⟩) renewed.2.2

/-- In every run of the client, whatever it fetches, the keys of
`pendingInterests` are the names of the outstanding Interests and no more than
the window exactly as long as each name that a callback ends with or puts
stays outstanding, and each that goes out is put. -/
theorem pending_tracks_iff (uris : Uris jndn component) (opening : 0 ≤ client.window) (events : List Event) :
    (client.system jndn).Throughout (fun state => state.exited = true ∨ Tracks jndn client state) (.initial jndn client)
        events ↔
      (client.system jndn).Along (Renewed jndn client) (.initial jndn client) events := by
  have initial : Tracks jndn client (.initial jndn client) :=
    ⟨rfl, by simp [State.initial], by simpa [State.initial] using opening⟩
  refine System.throughout_iff_along (fun bounded held moved => ?_) (bounded_initial uris client) (.inr initial) events
  exact ⟨bounded_step uris opening bounded moved,
    tracks_step uris opening bounded (held.resolve_left (Bool.eq_false_iff.mp (running_of_step moved))) moved⟩

/-- With a window of one, the first Data makes the benchmark ask for its name again. -/
theorem pending_tracks_sample :
    (sampleBenchmark.system sampleJndn).Throughout
      (fun state => state.exited = true ∨ Tracks sampleJndn sampleBenchmark state) (.initial sampleJndn sampleBenchmark)
      sampleAnswer :=
  (pending_tracks_iff uris_sample (by decide) sampleAnswer).mpr (by decide +kernel)

/-- The count of a file with three segments, in a window of two. -/
def sampleCount : List Event :=
  replicate 3 (.main none) ++ [.data sampleTarget.name (ascii "3") none]

/-- Two Interests are outstanding, and the map has the count's name as well. -/
theorem answered_name_kept :
    ∃ state, ((sampleClient none).system .reference).run (.initial .reference (sampleClient none)) sampleCount =
      some state ∧
      state.exited = false ∧ state.main = .events ∧ state.face.length = 2 ∧ state.pendingInterests.card = 3 ∧
      ¬Tracks .reference (sampleClient none) state := by
  have ran : (((sampleClient none).system .reference).run (.initial .reference (sampleClient none)) sampleCount).map
      (fun state => (state.exited, state.main, state.face.length, state.pendingInterests.card)) =
      some (false, .events, 2, 3) := by decide +kernel
  obtain ⟨state, ran, same⟩ := Option.map_eq_some_iff.mp ran
  simp only [Prod.mk.injEq] at same
  obtain ⟨alive, here, face, keys⟩ := same
  refine ⟨state, ran, alive, here, face, keys, fun tracks => ?_⟩
  have window := tracks.window
  simp [keys, sampleClient] at window

end Ndnperf.Java.Client

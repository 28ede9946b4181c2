import Ndnperf.Java.ClientProperties

namespace Ndnperf.Java.Client

open Ndn Library Library.Transition List

variable {jndn : Jndn} {client : Client} {state before after : State} {event : Event} {name : Name} {names : List Name}

/-- The name of the Data that the main thread is handling. -/
def MainPc.handled : MainPc → Option Name
  | .release name => some name
  | .request name => some name
  | .poll => none
  | .loop => none
  | .events => none
  | .ended => none

/-! ## The calls of `expressInterest` in one step -/

def Event.throwsAt : Event → Option Failure
  | .data _ _ throwsAt => throwsAt
  | .timeout _ throwsAt => throwsAt
  | .main throwsAt => throwsAt
  | .fileManager => none

def benchmarkName (jndn : Jndn) (client : Client) (number : Int) : Name :=
  jndn.nameOfUri (client.namePrefix ++ "/benchmark/".toList ++ decimal number)

/-- What `nextDownloadInterest` asks for before it releases a permit. -/
def callsOfDownload (jndn : Jndn) (state : State) (name : Name) (content : Bytes) : List Name :=
  match name with
  | [_, _, _] =>
      match parseLong (jndn.blobText content) with
      | some max => (List.range (min state.next max).toNat).map fun segment : Nat => name ++ [jndn.fromSegment segment]
      | none => []
  | _ => []

/-- The names passed to `expressInterest` in a step none of whose calls throws. -/
def calls (jndn : Jndn) (client : Client) (state : State) : Event → List Name
  | .data name content _ =>
      if jndn.toUri name ∈ state.pendingInterests then
        if name[1]?.map jndn.toEscapedString = some "benchmark".toList then
          [benchmarkName jndn client state.next]
        else if name[1]?.map jndn.toEscapedString = some "download".toList then callsOfDownload jndn state name content
        else []
      else []
  | .timeout name _ => if 0 < state.retries jndn name then [name] else []
  | .main _ =>
      match state.main with
      | .poll => state.iQueue.take 1
      | .request name => if state.next < state.max then [name.take 3 ++ [jndn.fromSegment state.next]] else []
      | _ => []
  | .fileManager => []

/-- The Interests that the face has afterwards: a call that throws is the last
one, and may leave its own. -/
def passed (throwsAt : Option Failure) (names : List Name) : List Name :=
  match throwsAt with
  | some failure => names.take (failure.call + failure.kept.toNat)
  | none => names

/-- The names that are put into `pendingInterests`. -/
def entered (throwsAt : Option Failure) (names : List Name) : List Name :=
  match throwsAt with
  | some failure => names.take failure.call
  | none => names

/-- The names of a step whose Interests an `IOException` keeps from the face. -/
def unsent (jndn : Jndn) (client : Client) (state : State) (event : Event) : List Name :=
  match event.throwsAt with
  | some failure => (calls jndn client state event).drop (failure.call + failure.kept.toNat)
  | none => []

/-- The name that a Data answers. -/
def Event.answers : Event → Option Name
  | .data name _ _ => some name
  | .timeout _ _ => none
  | .main _ => none
  | .fileManager => none

/-- A Data finds its name in `pendingInterests`. -/
def Known (jndn : Jndn) (state : State) (event : Event) : Prop :=
  ∀ name ∈ event.answers, jndn.toUri name ∈ state.pendingInterests

instance : Decidable (Known jndn state event) := inferInstanceAs (Decidable (∀ name ∈ event.answers, _))

theorem passed_nil (throwsAt : Option Failure) : passed throwsAt [] = [] := by
  cases throwsAt with
  | none => rfl
  | some failure => exact List.take_nil

theorem entered_nil (throwsAt : Option Failure) : entered throwsAt [] = [] := by
  cases throwsAt with
  | none => rfl
  | some failure => exact List.take_nil

theorem passed_sublist (throwsAt : Option Failure) (names : List Name) : passed throwsAt names <+ names := by
  cases throwsAt with
  | none => exact List.Sublist.refl _
  | some failure => exact List.take_sublist _ _

/-- What is entered has been sent. -/
theorem entered_sublist (throwsAt : Option Failure) (names : List Name) :
    entered throwsAt names <+ passed throwsAt names := by
  cases throwsAt with
  | none => exact List.Sublist.refl _
  | some failure => exact List.take_sublist_take_left (Nat.le_add_right _ _)

theorem passed_append_unsent (jndn : Jndn) (client : Client) (state : State) (event : Event) :
    passed event.throwsAt (calls jndn client state event) ++ unsent jndn client state event =
      calls jndn client state event := by
  unfold passed unsent
  cases event.throwsAt with
  | none => exact List.append_nil _
  | some failure => exact List.take_append_drop _ _

/-- The calls up to some point are made, and those behind it are not. -/
theorem unsent_split (jndn : Jndn) (client : Client) (state : State) (event : Event) :
    ∃ rounds ≤ (calls jndn client state event).length,
      passed event.throwsAt (calls jndn client state event) = (calls jndn client state event).take rounds ∧
      unsent jndn client state event = (calls jndn client state event).drop rounds := by
  have parts := passed_append_unsent jndn client state event
  refine ⟨(passed event.throwsAt (calls jndn client state event)).length, (passed_sublist _ _).length_le, ?_, ?_⟩
  · exact List.prefix_iff_eq_take.mp ⟨_, parts⟩
  · exact List.drop_left.symm.trans (congrArg (List.drop _) parts)

theorem unsent_subset (jndn : Jndn) (client : Client) (state : State) (event : Event) :
    unsent jndn client state event ⊆ calls jndn client state event := by
  rw [← passed_append_unsent]
  exact List.subset_append_right _ _

theorem unsent_quiet (quiet : event.throwsAt = none) : unsent jndn client state event = [] := by
  simp [unsent, quiet]

theorem unsent_silent (called : calls jndn client state event = []) : unsent jndn client state event = [] :=
  List.eq_nil_of_subset_nil (called ▸ unsent_subset jndn client state event)

/-- A single call is made, or its Interest is not sent. -/
theorem unsent_cases_one (called : calls jndn client state event = [name]) :
    unsent jndn client state event = [] ∧ passed event.throwsAt (calls jndn client state event) = [name] ∨
      unsent jndn client state event = [name] ∧ passed event.throwsAt (calls jndn client state event) = [] := by
  have parts := (passed_append_unsent jndn client state event).trans called
  obtain ⟨none, all⟩ | ⟨all, none⟩ := List.append_eq_singleton_iff.mp parts
  · exact .inr ⟨all, none⟩
  · exact .inl ⟨none, all⟩

/-- The face forgets the Interest that a callback is about. -/
def Event.settled (state : State) : Event → State
  | .data name _ _ => state.settle name
  | .timeout name _ => state.settle name
  | .main _ => state
  | .fileManager => state

/-- The names are passed to `expressInterest` in turn until a call throws. -/
structure Sends (jndn : Jndn) (before after : State) (throwsAt : Option Failure) (names : List Name) : Prop where
  face : after.face = before.face ++ passed throwsAt names
  known : before.pendingInterests ⊆ after.pendingInterests
  put : ∀ name ∈ entered throwsAt names, jndn.toUri name ∈ after.pendingInterests

theorem Sends.nothing {throwsAt : Option Failure} (face : after.face = before.face)
    (known : before.pendingInterests ⊆ after.pendingInterests) : Sends jndn before after throwsAt [] where
  face := by rw [face, passed_nil, List.append_nil]
  known
  put := by simp [entered_nil]

/-- A single call throws, or it is made. -/
theorem attempt_cases (throwsAt : Option Failure) (failed : Bool → State) (made : State) (name : Name) :
    (∃ kept, attempt throwsAt failed made = failed kept ∧ passed throwsAt [name] = (if kept then [name] else []) ∧
        entered throwsAt [name] = []) ∨
      attempt throwsAt failed made = made ∧ passed throwsAt [name] = [name] ∧ entered throwsAt [name] = [name] := by
  rcases throwsAt with _ | ⟨_ | call, kept⟩
  · exact .inr ⟨rfl, rfl, rfl⟩
  · exact .inl ⟨kept, rfl, by cases kept <;> rfl, rfl⟩
  · refine .inr ⟨rfl, List.take_of_length_le ?_, List.take_of_length_le ?_⟩
    · simp only [List.length_singleton]
      omega
    · simp only [List.length_singleton]
      omega

theorem Sends.one {throwsAt : Option Failure} {failed : Bool → State} {made : State}
    (left : ∀ kept, (failed kept).face = before.face ++ if kept then [name] else [])
    (missed : ∀ kept, (failed kept).pendingInterests = before.pendingInterests)
    (face : made.face = before.face ++ [name])
    (known : made.pendingInterests = insert (jndn.toUri name) before.pendingInterests) :
    Sends jndn before (attempt throwsAt failed made) throwsAt [name] := by
  obtain ⟨kept, thrown, sent, none⟩ | ⟨through, sent, all⟩ := attempt_cases throwsAt failed made name
  · rw [thrown]
    exact ⟨sent ▸ left kept, missed kept ▸ Finset.Subset.refl _, by simp [none]⟩
  · rw [through]
    refine ⟨face.trans (congrArg (before.face ++ ·) sent.symm), known ▸ Finset.subset_insert _ _,
      fun asked listed => ?_⟩
    rw [all, List.mem_singleton] at listed
    rw [known, listed]
    exact Finset.mem_insert_self _ _

/-- The loop after the count sends and enters its segments in turn. -/
theorem expressLoop_eq (base : Name) (limit : Nat) (throwsAt : Option Failure) (state : State) :
    let names := (List.range limit).map fun segment : Nat => base ++ [jndn.fromSegment segment]
    expressLoop jndn base limit throwsAt state = { state with
      face := state.face ++ passed throwsAt names
      pendingInterests := state.pendingInterests ∪ ((entered throwsAt names).map jndn.toUri).toFinset
      requested := state.requested ++ entered throwsAt names } := by
  cases throwsAt with
  | none => exact expressSegments_eq base limit state
  | some failure =>
      by_cases inside : failure.call < limit
      · have before : ((List.range limit).map fun segment : Nat => base ++ [jndn.fromSegment segment]).take
          failure.call = (List.range failure.call).map fun segment : Nat => base ++ [jndn.fromSegment segment] := by
          rw [← List.map_take, List.take_range, Nat.min_eq_left inside.le]
        have after : ((List.range limit).map fun segment : Nat => base ++ [jndn.fromSegment segment]).take
            (failure.call + 1) = (List.range failure.call).map
              (fun segment : Nat => base ++ [jndn.fromSegment segment]) ++
              [base ++ [jndn.fromSegment failure.call]] := by
          rw [← List.map_take, List.take_range, Nat.min_eq_left (by omega), List.range_succ, List.map_append]
          rfl
        simp only [expressLoop, inside, if_true, expressSegments_eq, State.fail, passed, entered, before]
        cases failure.kept with
        | false => simp only [Bool.false_eq_true, if_false, List.append_nil, Bool.toNat_false, Nat.add_zero, before]
        | true => simp only [if_true, Bool.toNat_true, after, List.append_assoc]
      · have all : ∀ call ≥ limit,
            ((List.range limit).map fun segment : Nat => base ++ [jndn.fromSegment segment]).take call =
              (List.range limit).map fun segment : Nat => base ++ [jndn.fromSegment segment] := by
          intro call beyond
          exact List.take_of_length_le (by simpa using beyond)
        simp only [expressLoop, inside, if_false, expressSegments_eq, passed, entered]
        rw [all _ (by omega), all _ (by omega)]

theorem nextDownloadInterest_sends (content : Bytes) (throwsAt : Option Failure) :
    Sends jndn state (client.nextDownloadInterest jndn name content throwsAt state) throwsAt
      (callsOfDownload jndn state name content) := by
  rcases name with _ | ⟨first, _ | ⟨second, _ | ⟨file, _ | ⟨last, rest⟩⟩⟩⟩
  · exact .nothing rfl (Finset.Subset.refl _)
  · exact .nothing rfl (Finset.Subset.refl _)
  · exact .nothing rfl (Finset.Subset.refl _)
  · simp only [nextDownloadInterest, callsOfDownload]
    cases parseLong (jndn.blobText content) with
    | none => exact .nothing rfl (Finset.Subset.refl _)
    | some max =>
        simp only
        split
        · have none : (min state.next max).toNat = 0 := by omega
          rw [none]
          exact .nothing rfl (Finset.Subset.refl _)
        · rw [expressLoop_eq]
          refine ⟨rfl, Finset.subset_union_left, fun name asked => ?_⟩
          exact Finset.mem_union_right _ (List.mem_toFinset.mpr (List.mem_map_of_mem asked))
  · simp only [nextDownloadInterest]
    split
    · exact .nothing rfl (Finset.Subset.refl _)
    · exact .nothing rfl (Finset.Subset.refl _)

theorem onData_sends (content : Bytes) (throwsAt : Option Failure) :
    Sends jndn state (client.onData jndn name content throwsAt state) throwsAt
      (calls jndn client state (.data name content throwsAt)) := by
  simp only [onData, calls]
  split
  · cases selected : name[1]?.map jndn.toEscapedString with
    | none => exact .nothing rfl (Finset.Subset.refl _)
    | some selector =>
        simp only [Option.some.injEq]
        split
        · exact .one (fun _ => rfl) (fun _ => rfl) rfl rfl
        · split
          · have sends := @nextDownloadInterest_sends jndn client { state with
              retryTable := Function.update state.retryTable (jndn.toUri name) none } name content throwsAt
            exact ⟨sends.face, sends.known, sends.put⟩
          · exact .nothing rfl (Finset.Subset.refl _)
  · exact .nothing rfl (Finset.Subset.refl _)

theorem onTimeout_sends (throwsAt : Option Failure) :
    Sends jndn state (onTimeout jndn name throwsAt state) throwsAt
      (calls jndn client state (.timeout name throwsAt)) := by
  simp only [onTimeout, calls]
  split
  · exact .one (fun _ => rfl) (fun _ => rfl) rfl rfl
  · exact .nothing rfl (Finset.Subset.refl _)

theorem mainStep_sends {throwsAt : Option Failure} (moved : mainStep jndn throwsAt before = some after) :
    Sends jndn before after throwsAt (calls jndn client before (.main throwsAt)) := by
  cases here : before.main with
  | poll =>
      cases queued : before.iQueue with
      | nil =>
          simp only [mainStep, here, queued, Option.some.injEq] at moved
          subst moved
          simp only [calls, here, queued, List.take_nil]
          exact .nothing rfl (Finset.Subset.refl _)
      | cons name rest =>
          simp only [mainStep, here, queued, Option.some.injEq] at moved
          subst moved
          simp only [calls, here, queued, List.take_succ_cons, List.take_zero]
          exact .one (fun _ => rfl) (fun _ => rfl) rfl rfl
  | request name =>
      simp only [mainStep, here, requestNext, Int.add_one_le_iff, Option.some.injEq] at moved
      subst moved
      simp only [calls, here]
      split
      · exact .one (fun _ => rfl) (fun _ => rfl) rfl rfl
      · exact .nothing rfl (Finset.subset_insert _ _)
  | ended =>
      simp only [mainStep, here] at moved
      cases moved
  | loop | events | release =>
      simp only [mainStep, here, Option.some.injEq] at moved
      subst moved
      simp only [calls, here]
      exact .nothing rfl (Finset.Subset.refl _)

/-- What a step does to the face: the calls are made in turn until one throws. -/
theorem step_sends (moved : client.step jndn before event = some after) :
    Sends jndn (event.settled before) after event.throwsAt (calls jndn client before event) := by
  cases event with
  | data name content throwsAt =>
      obtain ⟨_, _, _, rfl⟩ := step_data.mp moved
      exact onData_sends content throwsAt
  | timeout name throwsAt =>
      obtain ⟨_, _, _, rfl⟩ := step_timeout.mp moved
      exact @onTimeout_sends jndn client (before.settle name) name throwsAt
  | main throwsAt => exact mainStep_sends (step_main.mp moved).2
  | fileManager =>
      obtain ⟨fileManager, pendingFile, filePass, cont, written, rfl⟩ :=
        fileManagerStep_frame (step_fileManager.mp moved).2
      exact .nothing rfl (Finset.Subset.refl _)

/-! What else the calls of a step change -/

theorem attempt_frame (throwsAt : Option Failure) (failed : Bool → State) (made : State) :
    attempt throwsAt failed made = made ∨ ∃ kept, attempt throwsAt failed made = failed kept := by
  obtain ⟨kept, thrown, _⟩ | ⟨through, _⟩ := attempt_cases throwsAt failed made []
  · exact .inr ⟨kept, thrown⟩
  · exact .inl through

theorem nextBenchmarkInterest_frame (throwsAt : Option Failure) (state : State) :
    ∃ face pendingInterests requested, client.nextBenchmarkInterest jndn throwsAt state =
      { state with face, pendingInterests, requested, next := state.next + 1 } := by
  unfold nextBenchmarkInterest
  obtain through | ⟨kept, thrown⟩ := attempt_frame throwsAt _ _
  · exact ⟨_, _, _, through⟩
  · exact ⟨_, _, _, thrown⟩

theorem onTimeout_frame (name : Name) (throwsAt : Option Failure) (state : State) :
    ∃ face retryTable pendingInterests cont, onTimeout jndn name throwsAt state =
      { state with
        face, retryTable, pendingInterests, cont
        exited := if 0 < state.retries jndn name then state.exited else true } := by
  unfold onTimeout
  simp only
  split
  · obtain through | ⟨kept, thrown⟩ := attempt_frame throwsAt _ _
    · exact ⟨_, _, _, _, through⟩
    · exact ⟨_, _, _, _, thrown⟩
  · exact ⟨_, _, _, _, rfl⟩

theorem requestNext_frame (name : Name) (throwsAt : Option Failure) (state : State) :
    ∃ face pendingInterests requested, requestNext jndn name throwsAt state =
      { state with main := .events, next := state.next + 1, face, pendingInterests, requested } := by
  unfold requestNext
  simp only
  split
  · obtain through | ⟨kept, thrown⟩ := attempt_frame throwsAt _ _
    · exact ⟨_, _, _, through⟩
    · exact ⟨_, _, _, thrown⟩
  · exact ⟨_, _, _, rfl⟩

/-- The main thread polls an Interest from the queue, asks for the segment after
the one it has handled, or calls nothing. -/
theorem mainStep_cases {throwsAt : Option Failure} (moved : mainStep jndn throwsAt before = some after) :
    (∃ name rest face pendingInterests, before.iQueue = name :: rest ∧
        calls jndn client before (.main throwsAt) = [name] ∧
        after = { before with main := .poll, iQueue := rest, face, pendingInterests }) ∨
      (∃ name, before.main = .request name ∧ after = requestNext jndn name throwsAt before) ∨
      calls jndn client before (.main throwsAt) = [] ∧ ∃ main, ∃ filePass ≥ before.filePass,
        (main.handled = none ∨ main.handled = before.main.handled) ∧ after = { before with main, filePass } := by
  cases here : before.main with
  | poll =>
      cases queued : before.iQueue with
      | nil =>
          simp only [mainStep, here, queued, Option.some.injEq] at moved
          refine .inr (.inr ⟨?_, .loop, before.filePass, le_refl _, .inl rfl, moved.symm⟩)
          simp only [calls, here, queued, List.take_nil]
      | cons name rest =>
          simp only [mainStep, here, queued, Option.some.injEq] at moved
          have called : calls jndn client before (.main throwsAt) = [name] := by simp [calls, here, queued]
          have polled : ∃ face pendingInterests,
              after = { before with main := .poll, iQueue := rest, face, pendingInterests } := by
            obtain through | ⟨kept, thrown⟩ := attempt_frame throwsAt _ _
            · exact ⟨_, _, moved.symm.trans through⟩
            · exact ⟨_, _, moved.symm.trans thrown⟩
          obtain ⟨face, pendingInterests, same⟩ := polled
          exact .inl ⟨name, rest, face, pendingInterests, rfl, called, same⟩
  | loop =>
      simp only [mainStep, here, Option.some.injEq] at moved
      refine .inr (.inr ⟨by simp only [calls, here], _, before.filePass, le_refl _, .inl ?_, moved.symm⟩)
      split <;> rfl
  | events =>
      simp only [mainStep, here, Option.some.injEq] at moved
      exact .inr (.inr ⟨by simp only [calls, here], .loop, before.filePass, le_refl _, .inl rfl, moved.symm⟩)
  | release name =>
      simp only [mainStep, here, Option.some.injEq] at moved
      exact .inr (.inr ⟨by simp only [calls, here], .request name, _, Nat.le_succ _, .inr rfl, moved.symm⟩)
  | request name =>
      simp only [mainStep, here, Option.some.injEq] at moved
      exact .inr (.inl ⟨name, rfl, moved.symm⟩)
  | ended =>
      simp only [mainStep, here] at moved
      cases moved

theorem settled_face (event : Event) (state : State) : (event.settled state).face ⊆ state.face := by
  cases event with
  | data | timeout => exact List.erase_subset
  | main | fileManager => exact List.Subset.refl _

/-- Every Interest that is outstanding is in `pendingInterests` as long as no
call that throws leaves one with the face. -/
theorem known_step (known : ∀ name ∈ before.face, jndn.toUri name ∈ before.pendingInterests)
    (dropped : ∀ failure ∈ event.throwsAt, failure.kept = false)
    (moved : client.step jndn before event = some after) :
    ∀ name ∈ after.face, jndn.toUri name ∈ after.pendingInterests := by
  intro name member
  have sends := step_sends moved
  rw [sends.face] at member
  obtain kept | asked := List.mem_append.mp member
  · have inside : jndn.toUri name ∈ (event.settled before).pendingInterests := by
      cases event <;> exact known name (settled_face _ _ kept)
    exact sends.known inside
  · refine sends.put name ?_
    unfold passed at asked
    unfold entered
    cases thrown : event.throwsAt with
    | none => simpa [thrown] using asked
    | some failure =>
        have silent := dropped failure thrown
        simpa [thrown, silent] using asked

end Ndnperf.Java.Client

import Ndnperf.Java.ClientSends

namespace Ndnperf.Java.Client

open Ndn Library.Transition

variable {jndn : Jndn} {client : Client} {target : Target} {state before after : State} {event : Event} {name : Name}
  {content : Bytes} {throwsAt : Option Failure} {events : List Event}

/-! ## How the threads end -/

/-- The main loop has ended, and `FileManager` waits for permits that nobody is left to release. -/
structure Stuck (state : State) : Prop where
  alive : state.exited = false
  off : state.cont = false
  main : state.main = .ended
  waiting : ∃ permits > state.filePass, state.fileManager = .acquire permits

/-- `FileManager` has passed its test of `Main.cont`, and the permits it is about to ask for are not there. -/
def State.Starved (state : State) : Prop :=
  (state.fileManager = .available ∧ state.filePass = 0) ∨
    ∃ permits > state.filePass, state.fileManager = .acquire permits

/-- The Data is taken for a number of segments, and there are none. -/
def Refuses (jndn : Jndn) (state : State) (name : Name) (content : Bytes) : Prop :=
  jndn.toUri name ∈ state.pendingInterests ∧ name.length = 3 ∧
    name[1]?.map jndn.toEscapedString = some "download".toList ∧
    ∃ max ≤ 0, parseLong (jndn.blobText content) = some max

/-- A file that is not found is heard of while `FileManager` does not starve. -/
def Heard (jndn : Jndn) (state : State) : Event → Prop
  | .data name content _ => Refuses jndn state name content → ¬state.Starved
  | .timeout .. | .main _ | .fileManager => True

/-- Only a count of no segments makes `nextDownloadInterest` end the loops. -/
theorem nextDownloadInterest_frame (name : Name) (content : Bytes) (throwsAt : Option Failure) (state : State) :
    ∃ main face pendingInterests pendingFile max cont requested received,
      client.nextDownloadInterest jndn name content throwsAt state =
        { state with main, face, pendingInterests, pendingFile, max, cont, requested, received } ∧
      (cont = state.cont ∨ name.length = 3 ∧ ∃ max ≤ 0, parseLong (jndn.blobText content) = some max) := by
  rcases name with _ | ⟨first, _ | ⟨second, _ | ⟨file, _ | ⟨last, rest⟩⟩⟩⟩
  · exact ⟨_, _, _, _, _, _, _, _, rfl, .inl rfl⟩
  · exact ⟨_, _, _, _, _, _, _, _, rfl, .inl rfl⟩
  · exact ⟨_, _, _, _, _, _, _, _, rfl, .inl rfl⟩
  · simp only [nextDownloadInterest]
    cases parsed : parseLong (jndn.blobText content) with
    | none => exact ⟨_, _, _, _, _, _, _, _, rfl, .inl rfl⟩
    | some max =>
        by_cases refused : max ≤ 0
        · simp only [if_pos refused]
          exact ⟨_, _, _, _, _, _, _, _, rfl, .inr ⟨rfl, max, refused, rfl⟩⟩
        · simp only [if_neg refused, expressLoop_eq]
          exact ⟨_, _, _, _, _, _, _, _, rfl, .inl rfl⟩
  · simp only [nextDownloadInterest]
    split <;> exact ⟨_, _, _, _, _, _, _, _, rfl, .inl rfl⟩

/-- No Data moves `FileManager` or its permits, and only one that refuses a file ends the loops. -/
theorem onData_frame (name : Name) (content : Bytes) (throwsAt : Option Failure) (state : State) :
    ∃ main face retryTable pendingInterests pendingFile next max cont requested received,
      client.onData jndn name content throwsAt state =
        { state with main, face, retryTable, pendingInterests, pendingFile, next, max, cont, requested, received } ∧
      state.next ≤ next ∧ (cont = state.cont ∨ Refuses jndn state name content) := by
  simp only [onData]
  split
  · rename_i known
    split
    · rename_i selector selected
      split
      · obtain ⟨_, _, _, same⟩ := @nextBenchmarkInterest_frame jndn client throwsAt
          { state with retryTable := Function.update state.retryTable (jndn.toUri name) none }
        exact ⟨_, _, _, _, _, _, _, _, _, _, same, Int.le_add_one (Int.le_refl _), .inl rfl⟩
      · split
        · rename_i chosen
          obtain ⟨_, _, _, _, _, _, _, _, same, ends⟩ := @nextDownloadInterest_frame jndn client name content throwsAt
            { state with retryTable := Function.update state.retryTable (jndn.toUri name) none }
          refine ⟨_, _, _, _, _, _, _, _, _, _, same, Int.le_refl _, ends.imp_right fun refused => ?_⟩
          exact ⟨known, refused.1, by rw [selected, chosen], refused.2⟩
        · exact ⟨_, _, _, _, _, _, _, _, _, _, rfl, Int.le_refl _, .inl rfl⟩
    · exact ⟨_, _, _, _, _, _, _, _, _, _, rfl, Int.le_refl _, .inl rfl⟩
  · exact ⟨_, _, _, _, _, _, _, _, _, _, rfl, Int.le_refl _, .inl rfl⟩

/-- Once `Main.cont` is false, `FileManager` does not starve. -/
def Ending (state : State) : Prop := state.exited = false → state.cont = false → ¬state.Starved

/-- Where the thread asks for permits, or is about to. -/
def FileManagerPc.asks : FileManagerPc → Bool
  | .available | .acquire _ => true
  | _ => false

theorem State.Starved.asks (starved : state.Starved) : state.fileManager.asks = true := by
  obtain ⟨here, _⟩ | ⟨permits, _, here⟩ := starved
  · rw [here, FileManagerPc.asks]
  · rw [here, FileManagerPc.asks]

/-- The thread starves right after its test of `Main.cont`, or it starved before: the permits it counts stay there. -/
theorem fileManagerStep_starved (moved : fileManagerStep before = some after) (starved : after.Starved) :
    after.cont = before.cont ∧ (before.Starved ∨ before.cont = true) := by
  have used : ∀ use : PendingFile → State, (∀ file, (use file).fileManager.asks = false) →
      before.withFile use ≠ after := by
    rintro use elsewhere rfl
    have asks := starved.asks
    unfold State.withFile at asks
    split at asks
    · rw [elsewhere] at asks
      cases asks
    · cases asks
  unfold fileManagerStep at moved
  split at moved
  all_goals simp only [Option.ite_none_right_eq_some, Option.some.injEq, reduceCtorEq] at moved
  case h_1 =>
    subst moved
    by_cases on : before.cont = true
    · exact ⟨rfl, .inr on⟩
    · have asks := starved.asks
      rw [State.fileManagerAt, if_neg on] at asks
      cases asks
  case h_2 here =>
    subst moved
    by_cases counted : 0 < before.filePass
    · have asks := starved.asks
      rw [State.fileManagerAt, if_pos counted] at asks
      cases asks
    · exact ⟨rfl, .inl (.inl ⟨here, Nat.eq_zero_of_not_pos counted⟩)⟩
  case h_3 =>
    subst moved
    obtain ⟨there, _⟩ | ⟨permits, more, there⟩ := starved
    · cases there
    · cases there
      exact absurd more (Nat.lt_irrefl _)
  case h_4 =>
    obtain ⟨_, rfl⟩ := moved
    cases starved.asks
  case h_5 =>
    refine (used _ (fun file => ?_) moved).elim
    dsimp only [State.fileManagerAt]
    split <;> rfl
  case h_7 blob _ =>
    refine (used _ (fun file => ?_) moved).elim
    cases blob <;> rfl
  case h_8 here =>
    refine (used _ (fun file => ?_) moved).elim
    split
    · rfl
    · rw [here]
      rfl
  case h_9 =>
    refine (used _ (fun file => ?_) moved).elim
    dsimp only [State.fileManagerAt]
    split <;> rfl
  case h_11 =>
    subst moved
    cases starved.asks
  all_goals exact (used _ (fun file => rfl) moved).elim

/-- A timeout that ends the loops ends the program. -/
theorem Ending.timeout (ending : Ending before) : Ending (onTimeout jndn name throwsAt before) := by
  unfold onTimeout
  simp only
  split
  · obtain through | ⟨kept, thrown⟩ := attempt_frame throwsAt _ _
    · rw [through]
      exact ending
    · rw [thrown]
      exact ending
  · intro alive
    cases alive

theorem Ending.step (ending : Ending before) (heard : Heard jndn before event)
    (moved : client.step jndn before event = some after) : Ending after := by
  have alive := running_of_step moved
  cases event with
  | data name content throwsAt =>
      obtain ⟨_, _, _, rfl⟩ := step_data.mp moved
      obtain ⟨_, _, _, _, _, _, _, cont, _, _, same, _, kept | refused⟩ :=
        @onData_frame jndn client name content throwsAt (before.settle name)
      · rw [same]
        exact fun _ off => ending alive (kept.symm.trans off)
      · rw [same]
        exact fun _ _ => heard refused
  | timeout name throwsAt =>
      obtain ⟨_, _, _, rfl⟩ := step_timeout.mp moved
      have settled : Ending (before.settle name) := ending
      exact settled.timeout
  | main throwsAt =>
      obtain ⟨name, rest, face, pendingInterests, _, _, rfl⟩ | ⟨name, _, rfl⟩ | ⟨_, main, filePass, granted, _, rfl⟩ :=
        @mainStep_cases jndn client before after throwsAt (step_main.mp moved).2
      · exact ending
      · obtain ⟨face, pendingInterests, requested, same⟩ := @requestNext_frame jndn name throwsAt before
        rw [same]
        exact ending
      · rintro _ off (⟨here, none⟩ | ⟨permits, more, here⟩)
        · exact ending alive off (.inl ⟨here, Nat.eq_zero_of_le_zero (none ▸ granted)⟩)
        · exact ending alive off (.inr ⟨permits, Nat.lt_of_le_of_lt granted more, here⟩)
  | fileManager =>
      intro _ off starved
      obtain ⟨kept, already | on⟩ := fileManagerStep_starved (step_fileManager.mp moved).2 starved
      · exact ending alive (kept.symm.trans off) already
      · cases on.symm.trans (kept.symm.trans off)

theorem never_stuck (along : (client.system jndn).Along (Heard jndn) (.initial jndn client) events)
    (ran : (client.system jndn).run (.initial jndn client) events = some state) : ¬Stuck state := by
  have begun : Ending (.initial jndn client) := fun _ off => by simp [State.initial] at off
  have ending := along.keeps (fun ending heard moved => Ending.step ending heard moved) begun ran
  exact fun stuck => ending stuck.alive stuck.off (.inr stuck.waiting)

/-- The file is not found before `FileManager` has started. -/
theorem never_stuck_sample :
    ∃ state, ((sampleClient none).system .reference).run (.initial .reference (sampleClient none))
        (List.replicate 3 (.main none) ++
          .data sampleTarget.name (ascii "0") none :: List.replicate 2 (.main none) ++ [.fileManager]) = some state ∧
      state.fileManager = .ended ∧ ¬Stuck state := by
  have completed : (((sampleClient none).system .reference).run (.initial .reference (sampleClient none))
      (List.replicate 3 (.main none) ++ .data sampleTarget.name (ascii "0") none :: List.replicate 2 (.main none) ++
        [.fileManager])).map (·.fileManager) = some .ended := by decide +kernel
  have started : (((sampleClient none).system .reference).run (.initial .reference (sampleClient none))
      (List.replicate 3 (.main none))).map (·.fileManager) = some .loop := by decide +kernel
  obtain ⟨state, ran, ended⟩ := Option.map_eq_some_iff.mp completed
  refine ⟨state, ran, ended, never_stuck ?_ ran⟩
  rw [List.append_assoc, System.along_append]
  refine ⟨System.along_of_forall (fun _ event member => ?_) _, fun middle reached after _ => ⟨fun _ starved => ?_, ?_⟩⟩
  · rw [List.eq_of_mem_replicate member]
    trivial
  · rw [reached, Option.map_some, Option.some.injEq] at started
    have asks := starved.asks
    rw [started] at asks
    cases asks
  · refine System.along_of_forall (fun _ event member => ?_) _
    rcases List.mem_append.mp member with main | fileManager
    · rw [List.eq_of_mem_replicate main]
      trivial
    · rw [List.mem_singleton.mp fileManager]
      trivial

theorem Stuck.step (stuck : Stuck state) (event : Event) : client.step jndn state event = none := by
  obtain ⟨permits, more, waiting⟩ := stuck.waiting
  have main := stuck.main
  cases event with
  | fileManager =>
      simp only [Client.step, stuck.alive, Bool.false_eq_true, if_false, fileManagerStep, waiting,
        if_neg (Nat.not_le.mpr more)]
  | data | timeout | main =>
      simp only [Client.step, stuck.alive, Bool.false_eq_true, if_false, main, reduceCtorEq, false_and, mainStep]

/-- The end of `Main.cont` is all that a file that is not found leads to. -/
theorem onData_refuses (refused : Refuses jndn state name content) :
    ∃ retryTable max, client.onData jndn name content throwsAt state =
      { state with retryTable, max, cont := false } := by
  obtain ⟨known, three, chosen, max, none, parsed⟩ := refused
  obtain ⟨first, second, file, rfl⟩ := List.length_eq_three.mp three
  have different : "download".toList ≠ "benchmark".toList := by decide
  refine ⟨Function.update state.retryTable (jndn.toUri [first, second, file]) Option.none, max, ?_⟩
  simp only [onData, known, if_true, chosen, different, if_false, nextDownloadInterest, parsed, if_pos none]

/-- A step that is not heard leads to a thread that never ends. -/
theorem starved_stuck (moved : client.step jndn before (.data name content throwsAt) = some after)
    (unheard : ¬Heard jndn before (.data name content throwsAt)) :
    (client.system jndn).CanReach (fun event => event = .main none ∨ event = .fileManager) Stuck after := by
  obtain ⟨refused, starved⟩ := Classical.not_imp.mp unheard
  obtain ⟨alive, here, _, rfl⟩ := step_data.mp moved
  have settled : Refuses jndn (before.settle name) name content := refused
  obtain ⟨retryTable, max, same⟩ := @onData_refuses jndn client (before.settle name) name content throwsAt settled
  rw [same]
  have ended : (client.system jndn).run { before.settle name with retryTable, max, cont := false }
      [.main none, .main none] =
      some { before.settle name with retryTable, max, cont := false, main := .ended } := by
    simp only [System.run, system, Client.step, mainStep, State.settle, here, alive, Bool.false_eq_true, if_false,
      Option.bind_some]
  obtain ⟨available, empty⟩ | waiting := Classical.not_not.mp starved
  · have asks : (client.system jndn).step { before.settle name with retryTable, max, cont := false, main := .ended }
        .fileManager =
        some { before.settle name with retryTable, max, cont := false, main := .ended, fileManager := .acquire 1 } := by
      simp only [system, Client.step, fileManagerStep, State.settle, State.fileManagerAt, available, empty, alive,
        Bool.false_eq_true, if_false, Nat.lt_irrefl]
    have short : before.filePass < 1 := empty ▸ Nat.one_pos
    have ran := System.run_append.mpr ⟨_, ended, (System.run_singleton _ _).trans asks⟩
    refine ⟨[.main none, .main none] ++ [.fileManager], _, by simp, ran, ?_⟩
    exact ⟨alive, rfl, rfl, 1, short, rfl⟩
  · exact ⟨[.main none, .main none], _, by simp, ended, alive, rfl, rfl, waiting⟩

/-- The count of a file that is not found arrives while `FileManager` waits for the first segment. -/
theorem stuck_reached :
    ∃ state, ((sampleClient none).system .reference).Reachable state ∧ Stuck state ∧ state.filePass = 0 ∧
      ∀ event, (sampleClient none).step .reference state event = none := by
  have stopped : (((sampleClient none).system .reference).run (.initial .reference (sampleClient none))
      (List.replicate 3 (.main none) ++ List.replicate 2 .fileManager ++
        .data sampleTarget.name (ascii "0") none :: List.replicate 2 (.main none))).map
      (fun state => (state.exited, state.cont, state.main, state.fileManager, state.filePass)) =
      some (false, false, .ended, .acquire 1, 0) := by decide +kernel
  obtain ⟨state, ran, same⟩ := Option.map_eq_some_iff.mp stopped
  obtain ⟨alive, off, main, waiting, passes⟩ :
      state.exited = false ∧ state.cont = false ∧ state.main = .ended ∧ state.fileManager = .acquire 1 ∧
        state.filePass = 0 := by simpa only [Prod.mk.injEq] using same
  have stuck : Stuck state := ⟨alive, off, main, 1, by omega, waiting⟩
  exact ⟨state, .run (.start rfl) ran, stuck, passes, stuck.step⟩

end Ndnperf.Java.Client

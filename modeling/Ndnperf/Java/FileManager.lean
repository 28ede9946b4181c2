import Ndnperf.Library.Reorder
import Ndnperf.Java.Client

namespace Ndnperf.Java

open Ndn Library

def PendingFile.held (file : PendingFile) (index : Nat) : Option Bytes := file.segments.lookup (index : Int)

namespace PendingFile

variable {file : PendingFile} {arrived : Nat → Option Bytes} {index : Nat} {content blob : Bytes}

theorem held_put : (file.put index content).held = Function.update file.held index (some content) :=
  Reorder.lookup_insert file.segments Nat.cast_injective index content

theorem held_advance : file.advance.held = Function.update file.held file.position none :=
  Reorder.lookup_erase file.segments Nat.cast_injective file.position

end PendingFile

namespace Client

variable {max : Int} {existing : Bytes} {arrived : Nat → Option Bytes} {state before after : State} {file : PendingFile}
  {pc : FileManagerPc} {index : Nat} {content : Bytes}

namespace FileManagerPc

/-- What `nextSegment` has handed out and the channel does not have yet. -/
def inHand : FileManagerPc → Option Bytes
  | .write blob => some blob
  | _ => none

def draining : FileManagerPc → Bool
  | .peek | .get | .remove _ | .write _ => true
  | _ => false

/-- After an `isPending` that returned false, or after the loop. -/
def finishing : FileManagerPc → Bool
  | .close | .stop | .ended => true
  | _ => false

end FileManagerPc

/-- `FileManager` shares five variables with the main thread and leaves the others alone. -/
theorem fileManagerStep_frame (moved : fileManagerStep before = some after) :
    ∃ fileManager pendingFile filePass cont written,
      after = { before with fileManager, pendingFile, filePass, cont, written } := by
  have alone : ∀ use : PendingFile → State,
      (∀ file, ∃ fileManager pendingFile filePass cont written,
        use file = { before with fileManager, pendingFile, filePass, cont, written }) →
      ∃ fileManager pendingFile filePass cont written,
        before.withFile use = { before with fileManager, pendingFile, filePass, cont, written } := by
    intro use framed
    unfold State.withFile
    split
    · exact framed _
    · exact ⟨_, _, _, _, _, rfl⟩
  unfold fileManagerStep at moved
  split at moved
  all_goals simp only [Option.ite_none_right_eq_some, Option.some.injEq, reduceCtorEq] at moved
  case h_4 =>
    obtain ⟨_, rfl⟩ := moved
    exact ⟨_, _, _, _, _, rfl⟩
  case h_8 =>
    subst moved
    refine alone _ fun file => ?_
    split <;> exact ⟨_, _, _, _, _, rfl⟩
  all_goals subst moved
  all_goals first
    | exact ⟨_, _, _, _, _, rfl⟩
    | exact alone _ fun file => ⟨_, _, _, _, _, rfl⟩

/-- What `nextSegment` has seen so far is still there. -/
def FoundAt (file : PendingFile) : FileManagerPc → Prop
  | .get => file.current.isSome
  | .remove blob => blob = file.current ∧ file.current.isSome
  | _ => True

/-- The thread and its file once the number of segments is known. `arrived` are
the segments put into the file so far. A segment that is due never waits for a
thread that sleeps: there is a permit, or the main thread is about to release one. -/
structure Draining (max : Int) (existing : Bytes) (arrived : Nat → Option Bytes) (state : State)
    (file : PendingFile) : Prop where
  known : state.pendingFile = some file
  tracks : Reorder.Tracks arrived file.held file.position
  size : file.maxSegment = max
  bounded : ∀ index, (arrived index).isSome → (index : Int) < max
  found : FoundAt file state.fileManager
  written : (state.written ++ state.fileManager.inHand.toList).map some = (List.range file.position).map arrived
  channel : file.channel.Wrote existing state.written.flatten
  opened : file.channel.isOpen = false → state.fileManager = .stop ∨ state.cont = false
  stopped : state.cont = false → max ≤ file.position ∧ (state.fileManager = .loop ∨ state.fileManager = .ended)
  finished : state.fileManager.finishing → max ≤ file.position
  granted : ∀ permits, state.fileManager = .acquire permits → permits = 1 ∨ permits ≤ state.filePass
  awake : (arrived file.position).isSome → state.fileManager.draining = false →
    0 < state.filePass ∨ ∃ name, state.main = .release name

namespace Draining

theorem running {current : FileManagerPc} (draining : Draining max existing arrived state file)
    (here : state.fileManager = current) (looping : current ≠ .loop) (alive : current ≠ .ended) :
    state.cont = true := by
  by_contra off
  rcases (draining.stopped (Bool.not_eq_true _ ▸ off)).2 with reached | reached
  · exact looping (here.symm.trans reached)
  · exact alive (here.symm.trans reached)

/-- A thread that goes on without touching the file or the permits. -/
theorem goto {current : FileManagerPc} (draining : Draining max existing arrived state file)
    (here : state.fileManager = current) (on : state.cont = true) (passed : current ≠ .stop) (found : FoundAt file pc)
    (same : pc.inHand = current.inHand) (finished : pc.finishing → max ≤ file.position)
    (granted : ∀ permits, pc = .acquire permits → permits = 1 ∨ permits ≤ state.filePass)
    (quiet : pc.draining = false → current.draining = false ∨ arrived file.position = none) :
    Draining max existing arrived (state.fileManagerAt pc) file where
  known := draining.known
  tracks := draining.tracks
  size := draining.size
  bounded := draining.bounded
  found := found
  written := by
    rw [State.fileManagerAt, same, ← here]
    exact draining.written
  channel := draining.channel
  opened closed := by
    rcases draining.opened closed with stopping | off
    · exact (passed (here.symm.trans stopping)).elim
    · exact .inr off
  stopped off := by simp [State.fileManagerAt, on] at off
  finished := finished
  granted := granted
  awake due outside := by
    rcases quiet outside with before | missing
    · exact draining.awake due (here ▸ before)
    · simp [missing] at due

theorem remove (draining : Draining max existing arrived state file) {blob : Option Bytes}
    (here : state.fileManager = .remove blob) : ∃ content, blob = some content ∧
      Draining max existing arrived { state with pendingFile := some file.advance, fileManager := .write content }
        file.advance := by
  have on := draining.running here nofun nofun
  have found := draining.found
  rw [here] at found
  obtain ⟨same, due⟩ := found
  obtain ⟨content, current⟩ := Option.isSome_iff_exists.mp due
  obtain ⟨arrivedHere, tracks⟩ := draining.tracks.deliver current
  rw [← PendingFile.held_advance] at tracks
  have written := draining.written
  rw [here] at written
  refine ⟨content, same.trans current, ⟨rfl, tracks, draining.size, draining.bounded, trivial, ?_,
    draining.channel, ?_, ?_, nofun, nofun, nofun⟩⟩
  · have appended := congrArg (· ++ [arrived file.position]) written
    simpa [FileManagerPc.inHand, PendingFile.advance, List.range_succ, arrivedHere] using appended
  · intro closed
    rcases draining.opened closed with stopping | off
    · rw [here] at stopping
      cases stopping
    · exact .inr off
  · intro off
    simp [on] at off

theorem write (draining : Draining max existing arrived state file) (here : state.fileManager = .write content) :
    file.channel.isOpen = true ∧ Draining max existing arrived
      { state with
        pendingFile := some (file.write content), fileManager := .peek, written := state.written ++ [content] }
      (file.write content) := by
  have on := draining.running here nofun nofun
  have opened : file.channel.isOpen = true := by
    by_contra closed
    rcases draining.opened (Bool.not_eq_true _ ▸ closed) with stopping | off
    · rw [here] at stopping
      cases stopping
    · simp [on] at off
  have written := draining.written
  rw [here] at written
  refine ⟨opened, ⟨rfl, draining.tracks, draining.size, draining.bounded, trivial, ?_, ?_, ?_, ?_, nofun, nofun, nofun⟩⟩
  · simpa [FileManagerPc.inHand, PendingFile.write] using written
  · have longer : (file.channel.write content).Wrote existing (state.written.flatten ++ content) :=
      draining.channel.write opened
    simpa [PendingFile.write] using longer
  · intro closed
    simp [PendingFile.write, Channel.write, opened] at closed
  · intro off
    simp [on] at off

/-- `FileManager` writes the segments that are due, and ends only behind the last one. -/
theorem fileManagerStep (draining : Draining max existing arrived before file)
    (moved : Client.fileManagerStep before = some after) : ∃ next, Draining max existing arrived after next := by
  cases here : before.fileManager with
  | loop =>
      simp only [Client.fileManagerStep, here, Option.some.injEq] at moved
      subst moved
      refine ⟨file, ?_⟩
      split
      · rename_i on
        exact draining.goto here on nofun trivial rfl nofun nofun fun _ => .inl rfl
      · rename_i off
        obtain ⟨covered, _⟩ := draining.stopped (Bool.not_eq_true _ ▸ off)
        have written := draining.written
        rw [here] at written
        exact { draining with
          found := trivial
          written := written
          opened := fun _ => .inr (Bool.not_eq_true _ ▸ off)
          stopped := fun _ => ⟨covered, .inr rfl⟩
          finished := fun _ => covered
          granted := nofun
          awake := fun due _ => draining.awake due (by rw [here]; rfl) }
  | available =>
      have on := draining.running here nofun nofun
      simp only [Client.fileManagerStep, here, Option.some.injEq] at moved
      subst moved
      refine ⟨file, ?_⟩
      split
      · exact draining.goto here on nofun trivial rfl nofun nofun fun _ => .inl rfl
      · refine draining.goto here on nofun trivial rfl nofun ?_ fun _ => .inl rfl
        intro permits same
        exact .inl (FileManagerPc.acquire.inj same).symm
  | permits =>
      have on := draining.running here nofun nofun
      simp only [Client.fileManagerStep, here, Option.some.injEq] at moved
      subst moved
      refine ⟨file, draining.goto here on nofun trivial rfl nofun ?_ fun _ => .inl rfl⟩
      intro permits same
      exact .inr (Nat.le_of_eq (FileManagerPc.acquire.inj same).symm)
  | acquire permits =>
      have on := draining.running here nofun nofun
      simp only [Client.fileManagerStep, here, Option.ite_none_right_eq_some, Option.some.injEq] at moved
      obtain ⟨_, rfl⟩ := moved
      have resumed : Draining max existing arrived (before.fileManagerAt .peek) file :=
        draining.goto here on nofun trivial rfl nofun nofun nofun
      exact ⟨file, { resumed with granted := nofun, awake := nofun }⟩
  | peek =>
      have on := draining.running here nofun nofun
      simp only [Client.fileManagerStep, here, State.withFile, draining.known, Option.some.injEq] at moved
      subst moved
      refine ⟨file, ?_⟩
      split
      · rename_i due
        exact draining.goto here on nofun due rfl nofun nofun nofun
      · rename_i stuck
        have missing := draining.tracks.next_missing (Option.not_isSome_iff_eq_none.mp stuck)
        exact draining.goto here on nofun trivial rfl nofun nofun fun _ => .inr missing
  | get =>
      have on := draining.running here nofun nofun
      have due := draining.found
      rw [here] at due
      simp only [Client.fileManagerStep, here, State.withFile, draining.known, Option.some.injEq] at moved
      subst moved
      have found : FoundAt file (.remove file.current) := ⟨rfl, due⟩
      exact ⟨file, draining.goto here on nofun found rfl nofun nofun nofun⟩
  | remove blob =>
      obtain ⟨content, rfl, removed⟩ := draining.remove here
      simp only [Client.fileManagerStep, here, State.withFile, draining.known, Option.some.injEq] at moved
      exact ⟨_, moved ▸ removed⟩
  | write blob =>
      obtain ⟨opened, written⟩ := draining.write here
      simp only [Client.fileManagerStep, here, State.withFile, draining.known, opened, if_true,
        Option.some.injEq] at moved
      exact ⟨_, moved ▸ written⟩
  | isPending =>
      have on := draining.running here nofun nofun
      simp only [Client.fileManagerStep, here, State.withFile, draining.known, Option.some.injEq] at moved
      subst moved
      refine ⟨file, ?_⟩
      split
      · exact draining.goto here on nofun trivial rfl nofun nofun fun _ => .inl rfl
      · rename_i passed
        have covered : max ≤ file.position := by simpa [PendingFile.isPending, draining.size] using passed
        exact draining.goto here on nofun trivial rfl (fun _ => covered) nofun fun _ => .inl rfl
  | close =>
      have on := draining.running here nofun nofun
      have covered := draining.finished (by rw [here]; rfl)
      simp only [Client.fileManagerStep, here, State.withFile, draining.known, Option.some.injEq] at moved
      subst moved
      have resumed : Draining max existing arrived (before.fileManagerAt .stop) file :=
        draining.goto here on nofun trivial rfl (fun _ => covered) nofun fun _ => .inl rfl
      exact ⟨file.close, { resumed with
        known := rfl
        channel := draining.channel.close
        opened := fun _ => .inl rfl }⟩
  | stop =>
      have covered := draining.finished (by rw [here]; rfl)
      have written := draining.written
      rw [here] at written
      simp only [Client.fileManagerStep, here, Option.some.injEq] at moved
      subst moved
      exact ⟨file, { draining with
        found := trivial
        written := written
        opened := fun _ => .inr rfl
        stopped := fun _ => ⟨covered, .inl rfl⟩
        finished := nofun
        granted := nofun
        awake := fun due _ => draining.awake due (by rw [here]; rfl) }⟩
  | ended =>
      simp only [Client.fileManagerStep, here] at moved
      cases moved

theorem frame (draining : Draining max existing arrived before file) (known : after.pendingFile = before.pendingFile)
    (same : after.fileManager = before.fileManager) (written : after.written = before.written)
    (cont : after.cont = before.cont) (more : before.filePass ≤ after.filePass)
    (released : ∀ name, before.main = .release name → before.filePass < after.filePass) :
    Draining max existing arrived after file where
  known := known.trans draining.known
  tracks := draining.tracks
  size := draining.size
  bounded := draining.bounded
  found := same ▸ draining.found
  written := by rw [written, same]; exact draining.written
  channel := written ▸ draining.channel
  opened := by rw [same, cont]; exact draining.opened
  stopped := by rw [same, cont]; exact draining.stopped
  finished := by rw [same]; exact draining.finished
  granted := by
    rw [same]
    intro permits here
    have granted := draining.granted permits here
    omega
  awake := by
    rw [same]
    intro due outside
    rcases draining.awake due outside with permitted | ⟨name, here⟩
    · exact .inl (by omega)
    · have passed := released name here
      exact .inl (by omega)

theorem put (draining : Draining max existing arrived before file) (fresh : arrived index = none)
    (inside : (index : Int) < max) (known : after.pendingFile = some (file.put index content))
    (same : after.fileManager = before.fileManager) (written : after.written = before.written)
    (cont : after.cont = before.cont) (passes : after.filePass = before.filePass) {name : Name}
    (here : after.main = .release name) :
    Draining max existing (Function.update arrived index (some content)) after (file.put index content) where
  known := known
  tracks := PendingFile.held_put ▸ draining.tracks.store fresh content
  size := draining.size
  bounded other arrivedThen := by
    by_cases equal : other = index
    · exact equal ▸ inside
    · rw [Function.update_of_ne equal] at arrivedThen
      exact draining.bounded other arrivedThen
  found := by
    have kept : file.current.isSome → (file.put index content).current = file.current := by
      intro due
      have different : file.position ≠ index := by
        intro same
        subst same
        have held : (file.held file.position).isSome := due
        have arrivedThen := draining.tracks.isSome_held.mp held
        simp [fresh] at arrivedThen
      exact AList.lookup_insert_ne (by exact_mod_cast different)
    have found := draining.found
    rw [same]
    cases pc : before.fileManager with
    | get =>
        rw [pc] at found
        exact (congrArg Option.isSome (kept found)).trans found
    | remove blob =>
        rw [pc] at found
        exact ⟨found.1.trans (kept found.2).symm, (congrArg Option.isSome (kept found.2)).trans found.2⟩
    | _ => trivial
  written := by
    rw [written, same, draining.written]
    refine List.map_congr_left fun other earlier => (Function.update_of_ne ?_ _ _).symm
    intro same
    subst same
    have delivered := draining.tracks.delivered other (List.mem_range.mp earlier)
    simp [fresh] at delivered
  channel := written ▸ draining.channel
  opened := by rw [same, cont]; exact draining.opened
  stopped := by rw [same, cont]; exact draining.stopped
  finished := by rw [same]; exact draining.finished
  granted := by rw [same, passes]; exact draining.granted
  awake _ _ := .inr ⟨name, here⟩

end Draining

end Client

end Ndnperf.Java

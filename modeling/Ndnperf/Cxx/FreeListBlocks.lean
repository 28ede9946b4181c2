import Ndnperf.Cxx.FreeListSteps

namespace Ndnperf.Cxx.FreeList

open Library.Threads Library.Transition Library.Word

variable {Thread Node : Type} [Fintype Thread] [DecidableEq Thread] [DecidableEq Node] {state : State Thread Node}
  {thread : Thread} {node : Node}

/-! ## Who has a node -/

/-- The assertion of `add` holds in every state, and what a `try_get` is about to
return is with no caller, with no other call and no more in the list. -/
theorem handed_out_once (few : Fintype.card Thread + 2 < 2 ^ 31) (reached : system.Reachable state) :
    state.failed = false ∧ ∀ thread node, state.pcs thread = .dropRefs node →
      state.out node = false ∧
      (∀ other stage, (state.pcs other).claims = some (node, stage) → other = thread) ∧
      ∃ list, Chain state.freeListNext state.freeListHead list ∧ node ∉ list := by
  obtain ⟨places, list, placed⟩ := (sound_inductive few).reachable reached
  refine ⟨placed.failed, fun thread node here => ?_⟩
  have claims : (state.pcs thread).claims = some (node, .popped) := congrArg Pc.claims here
  have own := (placed.held thread node .popped).mp claims
  refine ⟨Bool.eq_false_of_not_eq_true (placed.kept claims), fun other stage also => ?_, list, placed.chain, ?_⟩
  · have second := (placed.held other node stage).mp also
    rw [own] at second
    cases second
    rfl
  · rw [placed.listed, own]
    intro same
    cases same

/-- One thread adds a node, and another one gets it. -/
def handOver : List (Label Bool Nat) :=
  .add true 5 :: List.replicate 5 (.advance true) ++ .tryGet false :: List.replicate 6 (.advance false)

theorem handOver_once :
    ∃ state : State Bool Nat, system.run .initial handOver = some state ∧ state.failed = false ∧
      state.out 5 = false ∧
      (∀ other stage, (state.pcs other).claims = some (5, stage) → other = false) ∧
      ∃ list, Chain state.freeListNext state.freeListHead list ∧ 5 ∉ list := by
  have ran : ∃ state : State Bool Nat, system.run .initial handOver = some state ∧ state.pcs false = .dropRefs 5 :=
    ⟨_, rfl, rfl⟩
  obtain ⟨state, ran, here⟩ := ran
  obtain ⟨asserted, handed⟩ := handed_out_once (by decide) (.run (.start rfl) ran)
  exact ⟨state, ran, asserted, handed false 5 here⟩

/-- A node that has been added is in the list once, with one call, or marked for
the call that returns its last reference. -/
theorem none_forgotten (few : Fintype.card Thread + 2 < 2 ^ 31) (reached : system.Reachable state) :
    ∃ list, Chain state.freeListNext state.freeListHead list ∧ list.Nodup ∧ (∀ node ∈ list, state.out node = false) ∧
      ∀ node, state.out node = false → node ∈ list ∨ (∃ thread stage, (state.pcs thread).claims = some (node, stage)) ∨
        shouldBeOnFreelist < state.freeListRefs node ∧ ∃ thread, (state.pcs thread).holds = some node := by
  obtain ⟨places, list, placed⟩ := (sound_inductive few).reachable reached
  refine ⟨list, placed.chain, placed.nodup, fun node member => ?_, fun node added => ?_⟩
  · rw [← Bool.not_eq_true, placed.out, (placed.listed node).mp member]
    intro out
    cases out
  · cases place : places node with
    | out =>
        rw [(placed.out node).mpr place] at added
        cases added
    | listed => exact .inl ((placed.listed node).mpr place)
    | held thread stage => exact .inr (.inl ⟨thread, stage, (placed.held thread node stage).mpr place⟩)
    | waiting =>
        have referenced := placed.waiting node place
        have counted := placed.refs node
        rw [place] at counted
        refine .inr (.inr ⟨Nat.lt_of_lt_of_eq (Nat.lt_add_of_pos_right referenced) counted.symm, ?_⟩)
        obtain ⟨thread, member⟩ := Finset.card_pos.mp referenced
        exact ⟨thread, (Finset.mem_filter.mp member).2⟩

/-- Between calls the list holds all that was added and not got again, each node once. -/
theorem list_when_idle (few : Fintype.card Thread + 2 < 2 ^ 31) (reached : system.Reachable state)
    (idle : ∀ thread, ∃ result, state.pcs thread = .outside result) :
    ∃ list, Chain state.freeListNext state.freeListHead list ∧ list.Nodup ∧ ∀ node, node ∈ list ↔ state.out node =
    false := by
  obtain ⟨list, chain, nodup, kept, added⟩ := none_forgotten few reached
  refine ⟨list, chain, nodup, fun node => ⟨kept node, fun away => ?_⟩⟩
  rcases added node away with member | ⟨thread, stage, claims⟩ | ⟨_, thread, holds⟩
  · exact member
  · obtain ⟨result, outside⟩ := idle thread
    rw [outside] at claims
    cases claims
  · obtain ⟨result, outside⟩ := idle thread
    rw [outside] at holds
    cases holds

theorem list_when_idle_sample : ∃ state : State Bool Nat,
    system.run .initial (handOver ++ [.advance false, .add false 5] ++ List.replicate 5 (.advance false)) = some state ∧
      ∃ list, Chain state.freeListNext state.freeListHead list ∧ list.Nodup ∧ ∀ node, node ∈ list ↔ state.out node =
      false := by
  have ran : ∃ state : State Bool Nat,
      system.run .initial (handOver ++ [.advance false, .add false 5] ++ List.replicate 5 (.advance false)) =
        some state ∧ state.pcs false = .outside none ∧ state.pcs true = .outside none := ⟨_, rfl, rfl, rfl⟩
  obtain ⟨state, ran, first, second⟩ := ran
  refine ⟨state, ran, list_when_idle (by decide) (.run (.start rfl) ran) fun thread => ⟨none, ?_⟩⟩
  cases thread with
  | false => exact first
  | true => exact second

/-! ## A call that nobody disturbs -/

omit [DecidableEq Thread] in
theorem Sound.referenced (few : Fintype.card Thread + 2 < 2 ^ 31) (sound : Sound state) {head : Node}
    (first : state.freeListHead = some head) : 0 < state.freeListRefs head ∧ state.freeListRefs head + 1 < 2 ^ 31 := by
  obtain ⟨places, list, placed⟩ := sound
  have counted := placed.refs head
  have bound := holders_le state head
  have chain := placed.chain
  cases list with
  | nil =>
      rw [first] at chain
      cases chain
  | cons node rest =>
      obtain rfl : head = node := Option.some.inj (first.symm.trans chain.1)
      rw [(placed.listed head).mp List.mem_cons_self] at counted
      simp only [Place.refs] at counted
      omega

omit [Fintype Thread] [DecidableEq Node] in
theorem State.threadAt_self (pc : Pc Node) : (state.threadAt thread pc).pcs thread = pc := Function.update_self ..

omit [Fintype Thread] [DecidableEq Node] in
theorem State.threadAt_threadAt (first second : Pc Node) :
    (state.threadAt thread first).threadAt thread second = state.threadAt thread second := by
  simp only [State.threadAt, Function.update_idem]

/-- A call of `try_get` that nobody disturbs, wherever the other threads stand,
returns the head of the list, in at most seven accesses. -/
theorem try_get_alone (few : Fintype.card Thread + 2 < 2 ^ 31) (reached : system.Reachable state)
    (outside : ∃ result, state.pcs thread = .outside result) :
    ∃ after, system.run state
        (.tryGet thread :: List.replicate (if state.freeListHead = none then 1 else 7) (.advance thread)) = some after ∧
      after.pcs thread = .outside state.freeListHead := by
  have sound := (sound_inductive few).reachable reached
  obtain ⟨result, here⟩ := outside
  have called : system.step state (.tryGet thread) = some (state.threadAt thread .getHead) := by
    simp only [system, step, here]
  cases first : state.freeListHead with
  | none =>
      refine ⟨(state.threadAt thread .getHead).threadAt thread (.outside none), System.run_cons.mpr ⟨_, called, ?_⟩,
        Function.update_self ..⟩
      rw [if_pos rfl]
      refine (System.run_singleton _ _).trans ?_
      simp only [system, step, advance, State.threadAt, Function.update_self, first]
      rfl
  | some head =>
      obtain ⟨referenced, small⟩ := sound.referenced few first
      have counted : state.freeListRefs head &&& refsMask ≠ 0 := by
        rw [and_refsMask]
        omega
      have word : uint32 (state.freeListRefs head + 1) = state.freeListRefs head + 1 := by
        simp only [uint32]
        omega
      have free : state.freeListRefs head + 1 &&& shouldBeOnFreelist = 0 := and_shouldBeOnFreelist small
      let taken := state.setRefs head (state.freeListRefs head + 1)
      let popped := { taken with freeListHead := state.freeListNext head }
      have refs : taken.freeListRefs head = state.freeListRefs head + 1 := Function.update_self ..
      have headRead : system.step (state.threadAt thread .getHead) (.advance thread) =
          some (state.threadAt thread (.loadRefs head)) := by
        simp only [system, step, advance, State.threadAt_self, State.threadAt_threadAt]
        exact congrArg (fun head => some (state.threadAt thread (.loop head))) first
      have refsRead : system.step (state.threadAt thread (.loadRefs head)) (.advance thread) =
          some (state.threadAt thread (.takeRef head (state.freeListRefs head))) := by
        simp only [system, step, advance, State.threadAt_self, State.threadAt_threadAt]
        exact congrArg (fun pc => some (state.threadAt thread pc)) (if_neg counted)
      have takes : system.step (state.threadAt thread (.takeRef head (state.freeListRefs head))) (.advance thread) =
          some (taken.threadAt thread (.loadNext head)) := by
        simp only [system, step, advance, State.threadAt_self, word]
        refine (if_pos rfl).trans (congrArg some ?_)
        exact @State.threadAt_threadAt _ _ _ taken thread _ _
      have nextRead : system.step (taken.threadAt thread (.loadNext head)) (.advance thread) =
          some (taken.threadAt thread (.popHead head (state.freeListNext head))) := by
        simp only [system, step, advance, State.threadAt_self, State.threadAt_threadAt]
        rfl
      have pops : system.step (taken.threadAt thread (.popHead head (state.freeListNext head))) (.advance thread) =
          some (popped.threadAt thread (.checkRefs head)) := by
        simp only [system, step, advance, State.threadAt_self]
        refine (if_pos first).trans (congrArg some ?_)
        exact @State.threadAt_threadAt _ _ _ popped thread _ _
      have checks : system.step (popped.threadAt thread (.checkRefs head)) (.advance thread) =
          some (popped.threadAt thread (.dropRefs head)) := by
        simp only [system, step, advance, State.threadAt_self, State.threadAt_threadAt]
        exact if_pos (refs.symm ▸ free)
      obtain ⟨after, drops, returned⟩ : ∃ after, system.step (popped.threadAt thread (.dropRefs head))
          (.advance thread) = some after ∧ after.pcs thread = .outside (some head) := by
        simp only [system, step, advance, State.threadAt_self]
        exact ⟨_, rfl, State.threadAt_self _⟩
      rw [if_neg (Option.some_ne_none head)]
      refine ⟨after, System.run_cons.mpr ⟨_, called, System.run_cons.mpr
        ⟨_, headRead, System.run_cons.mpr ⟨_, refsRead, ?_⟩⟩⟩, returned⟩
      refine System.run_cons.mpr ⟨_, takes, System.run_cons.mpr ⟨_, nextRead, System.run_cons.mpr ⟨_, pops, ?_⟩⟩⟩
      exact System.run_cons.mpr ⟨_, checks, (System.run_singleton _ _).trans drops⟩

theorem try_get_alone_sample : ∃ state after : State Bool Nat, system.run .initial (handOver.take 7) = some state ∧
    system.run state (.tryGet true :: List.replicate (if state.freeListHead = none then 1 else 7) (.advance true)) =
    some after ∧
      after.pcs true = .outside (some 5) := by
  have ran : ∃ state : State Bool Nat, system.run .initial (handOver.take 7) = some state ∧
      state.freeListHead = some 5 ∧ state.pcs true = .outside none := ⟨_, rfl, rfl, rfl⟩
  obtain ⟨state, ran, first, outside⟩ := ran
  obtain ⟨after, calls, returned⟩ := try_get_alone (by decide) (.run (.start rfl) ran) ⟨none, outside⟩
  exact ⟨state, after, ran, calls, returned.trans (congrArg Pc.outside first)⟩

end Ndnperf.Cxx.FreeList

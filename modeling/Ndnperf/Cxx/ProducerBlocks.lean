import Mathlib.Combinatorics.Enumerative.DoubleCounting
import Mathlib.Data.Finset.Sum
import Ndnperf.Cxx.ProducerQueue

namespace Ndnperf.Cxx.ImplicitProducer

open Library Library.Transition Library.Threads

variable {Thread Address Element : Type} {state : State Thread Address Element} {thread : Thread}
  {noexceptCtor : Bool} {address : Address}
  {block : Nat}

/-! ## The blocks that are in use -/

/-- In a call of `dequeue`. -/
def ConsumerPc.Busy (pc : ConsumerPc Address Element) : Prop := pc.place ≠ .away

instance : DecidablePred (ConsumerPc.Busy : ConsumerPc Address Element → Prop) :=
  fun pc => inferInstanceAs (Decidable (pc.place ≠ .away))

/-- What keeps a block in use: a thread that gives it back or still has to count
an element of it, or its place among the elements that are queued. -/
def Keeps (state : State Thread Address Element) (address : Address) : Thread ⊕ Nat → Prop
  | .inl thread =>
      (state.consumers thread).block = some address ∨
        ∃ block, (state.consumers thread).inside = some block ∧ state.home block = some address
  | .inr block => state.home block = some address

theorem ConsumerPc.busy_of_inside {pc : ConsumerPc Address Element} (inside : pc.inside = some block) : pc.Busy := by
  intro away
  cases pc with
  | outside => cases inside
  | loadTail | loadOvercommit | loadOptimistic | addOptimistic | compare | addOvercommit | addHead
  | loadBlockIndex | loadIndexTail | loadKey | loadValue | moveElement | setEmpty | clearEntry | addToFreeList =>
      cases away

theorem ConsumerPc.busy_of_block {pc : ConsumerPc Address Element} (gives : pc.block = some address) : pc.Busy := by
  cases pc <;> cases gives
  intro away
  cases away

theorem ConsumerPc.not_inside_of_block {pc : ConsumerPc Address Element} (gives : pc.block = some address) :
    pc.inside = none := by
  cases pc <;> cases gives
  rfl

theorem ProducerPc.Filled.of_block {pc : ProducerPc Address Element} {started enqueued : Nat}
    (filled : pc.Filled noexceptCtor started enqueued) (has : pc.block = some address) :
    enqueued = started * blockSize := by
  cases pc with
  | constructFirst => exact filled.1
  | storeValue | rewind | clearEntry | addToFreeList => exact filled
  | outside | loadHead | loadEntry | newBlockIndex | storeKey | storeTail | requisitionBlock | construct
  | storeTailIndex =>
      cases has

theorem keeps_unique (keeper : Thread ⊕ Nat) :
    ({address ∈ state.held | Keeps state address keeper} : Set Address).Subsingleton := by
  intro first here second there
  have keeps := here.2
  have also := there.2
  cases keeper with
  | inr block => exact Option.some.inj (keeps.symm.trans also)
  | inl thread =>
      rcases keeps with gives | ⟨block, inside, home⟩
      · rcases also with same | ⟨block, inside, _⟩
        · exact Option.some.inj (gives.symm.trans same)
        · cases (ConsumerPc.not_inside_of_block gives).symm.trans inside
      · rcases also with gives | ⟨other, within, place⟩
        · cases (ConsumerPc.not_inside_of_block gives).symm.trans inside
        · rw [← Option.some.inj (inside.symm.trans within)] at place
          exact Option.some.inj (home.symm.trans place)

variable [Fintype Thread]

/-- A block all of whose elements are claimed is kept by a thread that has not finished with it. -/
theorem Sound.kept_by_thread (sound : Sound noexceptCtor state) (home : state.home block = some address)
    (behind : (block + 1) * blockSize ≤ state.headIndex) : ∃ thread, (state.consumers thread).inside = some block := by
  have counts := sound.counts block address home
  by_cases waiting : ∃ thread, (state.consumers thread).Within block
  · obtain ⟨thread, within⟩ := waiting
    refine ⟨thread, ?_⟩
    rw [ConsumerPc.inside, show Option.map _ _ = some block from within]
    rfl
  · have nobody := threadsAt_eq_zero (ConsumerPc.Within block) fun thread within => waiting ⟨thread, within⟩
    have full : (state.blocks address).elementsCompletelyDequeued = blockSize := by
      simp only [blockSize] at counts behind ⊢
      omega
    obtain ⟨thread, clears⟩ := sound.emptied block address home full
    refine ⟨thread, ?_⟩
    cases here : state.consumers thread with
    | clearEntry =>
        rw [here] at clears
        exact clears
    | outside | loadTail | loadOvercommit | loadOptimistic | addOptimistic | compare | addOvercommit | addHead
    | loadBlockIndex | loadIndexTail | loadKey | loadValue | moveElement | setEmpty | addToFreeList =>
        rw [here] at clears
        cases clears

theorem Sound.keeps (sound : Sound noexceptCtor state) (used : address ∈ state.held) :
    ∃ keeper ∈ (Finset.univ.filter fun thread => (state.consumers thread).Busy).disjSum
      (Finset.Icc (state.headIndex / blockSize) (state.enqueued.length / blockSize)), Keeps state address keeper := by
  obtain ⟨owner, has⟩ := (sound.owned.used address).mp used
  cases owner with
  | inr thread =>
      refine ⟨.inl thread, Finset.inl_mem_disjSum.mpr (Finset.mem_filter.mpr ⟨Finset.mem_univ _, ?_⟩), .inl has⟩
      exact ConsumerPc.busy_of_block has
  | inl block =>
      have home : state.home block = some address := has
      by_cases behind : (block + 1) * blockSize ≤ state.headIndex
      · obtain ⟨thread, inside⟩ := sound.kept_by_thread home behind
        refine ⟨.inl thread, Finset.inl_mem_disjSum.mpr (Finset.mem_filter.mpr ⟨Finset.mem_univ _, ?_⟩),
          .inr ⟨block, inside, home⟩⟩
        exact ConsumerPc.busy_of_inside inside
      · refine ⟨.inr block, Finset.inr_mem_disjSum.mpr (Finset.mem_Icc.mpr ⟨?_, ?_⟩), home⟩
        · simp only [blockSize] at behind ⊢
          omega
        · by_cases latest : block = state.started.length
          · rw [State.home, if_pos latest] at home
            have start := sound.filled.of_block home
            rw [start, ← latest]
            simp only [blockSize]
            omega
          · rw [State.home, if_neg latest] at home
            have below := sound.indexed.live_lt block address home
            have bounds := sound.filled.bounds
            simp only [blockSize] at bounds ⊢
            omega

/-- A block leaves the index when all its elements have been taken out of it. -/
theorem Sound.taken_of_retired (sound : Sound noexceptCtor state) (retired : block ∈ state.retired) {index : Nat}
    (inside : index / blockSize = block) : state.Taken index := by
  have behind := sound.retired block retired
  constructor
  · simp only [blockSize] at behind inside
    omega
  · intro thread claims
    have uncounted := ConsumerPc.uncounted_of_claimed claims
    have within : (state.consumers thread).inside = some block := by
      rw [ConsumerPc.inside, uncounted, ← inside]
      rfl
    obtain ⟨address, live⟩ := sound.inside_live within
    rw [State.live, if_pos retired] at live
    cases live

variable [DecidableEq Thread] [DecidableEq Address]

/-- A producer gives up a block when all its elements have been taken, and it
holds no more blocks than the elements in the queue fill, one more, and one for
each thread in a call of `dequeue`. -/
theorem blocks_bounded (reached : (system noexceptCtor).Reachable state) (young : Young state) :
    (∀ block ∈ state.retired, ∀ index, index / blockSize = block → state.Taken index) ∧
      state.held.card ≤
        threadsAt ConsumerPc.Busy state.consumers +
          (state.enqueued.length / blockSize + 1 - state.headIndex / blockSize) := by
  classical
  have sound := (refines noexceptCtor).invariant reached young
  refine ⟨fun block retired index inside => sound.taken_of_retired retired inside, ?_⟩
  have bound := Finset.card_le_card_of_forall_subsingleton (Keeps state) (fun _ used => sound.keeps used)
    fun keeper _ => keeps_unique keeper
  rwa [Finset.card_disjSum, Nat.card_Icc] at bound

/-- A block is filled, a second one begun, and the first one emptied by two threads in turn. -/
def emptiedBlock : List (Label Bool Nat Nat) :=
  .enqueue 0 :: List.replicate 8 (.produce ⟨true, some 3, false⟩) ++
    (List.range 31).flatMap (fun number =>
      .enqueue (number + 1) :: List.replicate 2 (.produce ⟨true, some 3, false⟩)) ++
    .enqueue 32 :: List.replicate 8 (.produce ⟨true, some 4, false⟩) ++
    (List.range 16).flatMap (fun _ =>
      .dequeue false :: List.replicate 12 (.consume false) ++ .dequeue true :: List.replicate 12 (.consume true)) ++
    List.replicate 2 (.consume true)

theorem emptiedBlock_bounded : ∃ state : State Bool Nat Nat,
    (system true).run (.initial fun _ => ⟨0, fun _ => none⟩) emptiedBlock = some state ∧ 0 ∈ state.retired ∧
      (∀ index < blockSize, state.Taken index) ∧ state.held.card ≤ threadsAt ConsumerPc.Busy state.consumers + 1 := by
  have ends : ((system true).run (.initial fun _ => ⟨0, fun _ => none⟩) emptiedBlock).map
      (fun state : State Bool Nat Nat => (state.enqueued.length, state.drawn, state.headIndex,
        decide (0 ∈ state.retired))) = some (33, 32, 32, true) := by decide +kernel
  obtain ⟨state, ran, figures⟩ := Option.map_eq_some_iff.mp ends
  simp only [Prod.mk.injEq, decide_eq_true_eq] at figures
  obtain ⟨enqueued, drawn, head, retired⟩ := figures
  have young : Young state := by
    rw [Young, enqueued, drawn]
    decide
  obtain ⟨taken, bound⟩ := blocks_bounded (.run (.start ⟨_, rfl⟩) ran) young
  rw [enqueued, head] at bound
  exact ⟨state, ran, retired, fun index inside => taken 0 retired index (Nat.div_eq_of_lt inside), bound⟩

end Ndnperf.Cxx.ImplicitProducer

import Mathlib.Algebra.Order.BigOperators.Group.Finset
import Ndnperf.Library.Refinement
import Ndnperf.Library.Semaphore
import Ndnperf.Library.Threads
import Ndnperf.Cxx.LightweightSemaphore

namespace Ndnperf.Cxx.LightweightSemaphore

open Library Library.Word Library.Transition

/-! ## The figures that the invariant is about -/

def Continuation.taken : Continuation → Nat
  | .rest => 1
  | .result | .wait => 0

/-- The permits that a call has already taken. -/
def Pc.taken : Pc → Nat
  | .load _ next | .exchangeWeak _ next _ => next.taken
  | _ => 0

def Pc.sleepers : Pc → Nat
  | .semaWait _ => 1
  | _ => 0

def Pc.posting : Pc → Nat
  | .post left => left
  | _ => 0

/-- What of a state the invariant needs: the two counters, the threads in
`m_sema.wait`, the calls of `sem_post` still to come, and what each thread has taken. -/
structure Figures (Thread : Type) where
  count : Int
  sema : Nat
  sleepers : Nat
  posting : Nat
  held : Thread → Nat
  signalled : Nat

variable {Thread : Type} [Fintype Thread] [DecidableEq Thread]

namespace State

variable (state : State Thread)

def sleepers : Nat := ∑ thread, (state.pcs thread).sleepers

def posting : Nat := ∑ thread, (state.pcs thread).posting

def held (thread : Thread) : Nat := state.returned thread + (state.pcs thread).taken

def figures : Figures Thread where
  count := state.count
  sema := state.sema
  sleepers := state.sleepers
  posting := state.posting
  held := state.held
  signalled := state.signalled

end State

/-- What a step does to the figures, and what an observer of the permits sees of it. -/
inductive Moves (before : Figures Thread) (thread : Thread) :
    Option (Semaphore.Label Thread) → Figures Thread → Prop where
  | stays : Moves before thread none before
  | takes {left : Int} (nonneg : 0 ≤ left) (fewer : left ≤ before.count) :
      Moves before thread (some (.acquire thread (before.count - left).toNat))
        { before with
          count := left
          held := Function.update before.held thread (before.held thread + (before.count - left).toNat) }
  | sleeps (empty : before.count ≤ 0) : Moves before thread none
      { before with count := before.count - 1, sleepers := before.sleepers + 1 }
  | wakes {sema sleepers : Nat} (posted : before.sema = sema + 1) (slept : before.sleepers = sleepers + 1) :
      Moves before thread (some (.acquire thread 1))
        { before with sema, sleepers, held := Function.update before.held thread (before.held thread + 1) }
  | signals {amount : Nat} : Moves before thread (some (.release amount))
      { before with
        count := before.count + amount
        posting := before.posting + (toRelease before.count amount).toNat
        signalled := before.signalled + amount }
  | posts {posting : Nat} (left : before.posting = posting + 1) : Moves before thread none
      { before with sema := before.sema + 1, posting }

/-- Every permit is still counted or has been taken, and every thread in
`m_sema.wait` is owed a permit, a post or a signal. -/
structure Sound (figures : Figures Thread) : Prop where
  account : figures.count + figures.sleepers + (∑ thread, figures.held thread : Nat) = figures.signalled
  covered : figures.sema + figures.posting + max 0 (-figures.count) = figures.sleepers

variable {before after : Figures Thread} {thread : Thread} {seen : Option (Semaphore.Label Thread)}

theorem Sound.moves (sound : Sound before) (moved : Moves before thread seen after) : Sound after := by
  obtain ⟨account, covered⟩ := sound
  have taken := fun amount => Threads.sum_update before.held thread (before.held thread + amount)
  cases moved with
  | stays => exact ⟨account, covered⟩
  | takes nonneg fewer =>
      rename_i left
      have more := taken (before.count - left).toNat
      constructor <;> dsimp only <;> omega
  | sleeps empty => constructor <;> dsimp only <;> omega
  | wakes posted slept =>
      have more := taken 1
      constructor <;> dsimp only <;> omega
  | signals =>
      constructor
      · dsimp only
        omega
      · simp only [toRelease]
        split <;> omega
  | posts left => constructor <;> dsimp only <;> omega

/-! ## What a step does -/

variable {state : State Thread} {pc : Pc} {sleepers posting amount max : Nat}

theorem sleepers_update :
    (∑ other, (Function.update state.pcs thread pc other).sleepers) + (state.pcs thread).sleepers =
    state.sleepers + pc.sleepers :=
  Threads.sum_weigh_update Pc.sleepers state.pcs thread pc

theorem posting_update : (∑ other, (Function.update state.pcs thread pc other).posting) + (state.pcs thread).posting =
    state.posting + pc.posting :=
  Threads.sum_weigh_update Pc.posting state.pcs thread pc

omit [Fintype Thread] in
theorem held_update (returned : Nat) :
    (fun other => Function.update state.returned thread returned other +
      (Function.update state.pcs thread pc other).taken) =
      Function.update state.held thread (returned + pc.taken) := by
  funext other
  by_cases same : other = thread
  · subst same
    simp only [Function.update_self]
  · simp only [Function.update_of_ne same, State.held]

theorem figures_threadAt (sleepers posting : Nat)
    (slept : sleepers + (state.pcs thread).sleepers = state.sleepers + pc.sleepers)
    (posted : posting + (state.pcs thread).posting = state.posting + pc.posting)
    (taken : pc.taken = (state.pcs thread).taken) :
    (state.threadAt thread pc).figures = { state.figures with sleepers, posting } := by
  have asleep := @sleepers_update _ _ _ thread state pc
  have post := @posting_update _ _ _ thread state pc
  have held : (state.threadAt thread pc).held = state.held := by
    have same := @held_update _ _ thread state pc (state.returned thread)
    rwa [Function.update_eq_self, taken, ← State.held, Function.update_eq_self] at same
  have sleeping : (state.threadAt thread pc).sleepers = sleepers := by
    simp only [State.sleepers, State.threadAt] at asleep slept ⊢
    omega
  have posts : (state.threadAt thread pc).posting = posting := by
    simp only [State.posting, State.threadAt] at post posted ⊢
    omega
  simp only [State.figures, held, sleeping, posts]
  rfl

theorem figures_returns (sleepers : Nat) (slept : sleepers + (state.pcs thread).sleepers = state.sleepers)
    (idle : (state.pcs thread).posting = 0) {result : Nat} (taken : result = amount + (state.pcs thread).taken) :
    (state.returns thread result).figures =
      { state.figures with sleepers, held := Function.update state.held thread (state.held thread + amount) } := by
  have asleep := @sleepers_update _ _ _ thread state .outside
  have post := @posting_update _ _ _ thread state .outside
  have held : (state.returns thread result).held = Function.update state.held thread (state.held thread + amount) := by
    refine (held_update (state.returned thread + result)).trans ?_
    congr 1
    simp only [Pc.taken, State.held, taken]
    omega
  have sleeping : (state.returns thread result).sleepers = sleepers := by
    simp only [State.sleepers, State.returns, Pc.sleepers] at asleep slept ⊢
    omega
  have posts : (state.returns thread result).posting = state.posting := by
    have outside : Pc.outside.posting = 0 := rfl
    simp only [State.posting, State.returns] at post ⊢
    omega
  simp only [State.figures, held, sleeping, posts]
  rfl

theorem figures_finish {next : Continuation} {oldCount : Int}
    (here : state.pcs thread = .exchangeWeak max next oldCount) {result : Nat} :
    (state.finish thread max next result).figures =
      { state.figures with held := Function.update state.held thread (state.held thread + result) } := by
  have taken : (state.pcs thread).taken = next.taken := by rw [here, Pc.taken]
  have awake : (state.pcs thread).sleepers = 0 := by rw [here, Pc.sleepers]; simp
  have idle : (state.pcs thread).posting = 0 := by rw [here, Pc.posting]; simp
  cases next with
  | result => exact figures_returns _ (by rw [awake]; rfl) idle (by rw [taken]; rfl)
  | wait =>
      rw [State.finish]
      split
      · rename_i waits
        rw [waits.1, Nat.add_zero, Function.update_eq_self]
        exact figures_threadAt _ _ (by rw [awake]; rfl) (by rw [idle]; rfl) (by rw [taken]; rfl)
      · exact figures_returns _ (by rw [awake]; rfl) idle (by rw [taken]; rfl)
  | rest => exact figures_returns _ (by rw [awake]; rfl) idle (by rw [taken]; exact Nat.add_comm 1 result)

theorem figures_woken (sleepers : Nat) (slept : sleepers + (state.pcs thread).sleepers = state.sleepers)
    (idle : (state.pcs thread).posting = 0) (nothing : (state.pcs thread).taken = 0) :
    (state.woken thread max).figures =
      { state.figures with sleepers, held := Function.update state.held thread (state.held thread + 1) } := by
  rw [State.woken]
  split
  · rename_i more
    have asleep := @sleepers_update _ _ _ thread state (.load (max - 1) .rest)
    have post := @posting_update _ _ _ thread state (.load (max - 1) .rest)
    have held := @held_update _ _ thread state (.load (max - 1) .rest) (state.returned thread)
    have outside : (Pc.load (max - 1) .rest).posting = 0 ∧ (Pc.load (max - 1) .rest).sleepers = 0 := ⟨rfl, rfl⟩
    have held : (state.threadAt thread (.load (max - 1) .rest)).held =
        Function.update state.held thread (state.held thread + 1) := by
      have own : state.returned thread + Pc.taken (.load (max - 1) .rest) = state.held thread + 1 := by
        simp only [State.held, nothing]
        rfl
      rwa [Function.update_eq_self, own] at held
    have sleeping : (state.threadAt thread (.load (max - 1) .rest)).sleepers = sleepers := by
      simp only [State.sleepers, State.threadAt] at asleep slept ⊢
      omega
    have posts : (state.threadAt thread (.load (max - 1) .rest)).posting = state.posting := by
      simp only [State.posting, State.threadAt] at post ⊢
      omega
    simp only [State.figures, held, sleeping, posts]
    rfl
  · exact figures_returns _ slept idle (by rw [nothing])

/-- What an observer of the permits sees of a step. -/
def visible (state : State Thread) : Label Thread → Option (Semaphore.Label Thread)
  | .call _ _ => none
  | .move thread spurious =>
      match state.pcs thread with
      | .exchangeWeak max _ oldCount =>
          if oldCount > 0 ∧ state.count = oldCount ∧ spurious = false then
            some (.acquire thread (oldCount - newCount oldCount max).toNat)
          else none
      | .exchangeStrong max _ oldCount =>
          if state.count = oldCount then some (.acquire thread (oldCount - newCount oldCount max).toNat) else none
      | .spin _ 0 => if state.count ≤ 0 then none else some (.acquire thread 1)
      | .semaWait _ => some (.acquire thread 1)
      | .fetchAdd count => some (.release count)
      | .outside | .load _ _ | .spin _ (_ + 1) | .post _ => none

structure Valid (state : State Thread) : Prop where
  sound : Sound state.figures
  positive : ∀ thread, (state.pcs thread).Positive

theorem newCount_nonneg {oldCount : Int} : 0 ≤ newCount oldCount max := by
  unfold newCount
  split <;> omega

theorem newCount_le {oldCount : Int} (positive : 0 < oldCount) : newCount oldCount max ≤ oldCount := by
  unfold newCount
  split <;> omega

omit [DecidableEq Thread] in
theorem sleepers_le_card (state : State Thread) : state.sleepers ≤ Fintype.card Thread := by
  have each : ∀ thread ∈ Finset.univ, (state.pcs thread).sleepers ≤ 1 := by
    intro thread _
    unfold Pc.sleepers
    split <;> omega
  exact (Finset.sum_le_sum each).trans_eq (Finset.card_eq_sum_ones Finset.univ).symm

omit [DecidableEq Thread] in
theorem posting_le (state : State Thread) (thread : Thread) : (state.pcs thread).posting ≤ state.posting :=
  Finset.single_le_sum (fun other _ => Nat.zero_le (state.pcs other).posting) (Finset.mem_univ thread)

variable {next : State Thread} {spurious : Bool}

theorem figures_stays (awake : pc.sleepers = (state.pcs thread).sleepers)
    (idle : pc.posting = (state.pcs thread).posting) (taken : pc.taken = (state.pcs thread).taken) :
    (state.threadAt thread pc).figures = state.figures :=
  figures_threadAt state.sleepers state.posting (congrArg _ awake.symm) (congrArg _ idle.symm) taken

theorem moves_exchangeWeak {continuation : Continuation} {oldCount : Int}
    (here : state.pcs thread = .exchangeWeak max continuation oldCount)
    (moved : advance state thread spurious = some next) :
    Moves state.figures thread (visible state (.move thread spurious)) next.figures := by
  simp only [advance, here] at moved
  simp only [visible, here]
  have stays : (state.threadAt thread (.exchangeWeak max continuation state.count)).figures = state.figures :=
    figures_stays (by rw [here]; rfl) (by rw [here]; rfl) (by rw [here]; rfl)
  by_cases found : oldCount > 0
  · by_cases hit : state.count = oldCount ∧ spurious = false
    · simp only [found, hit, and_self, if_true, Option.some.injEq] at moved ⊢
      rw [← moved, figures_finish (by exact here), ← hit.1]
      exact .takes newCount_nonneg (newCount_le (hit.1 ▸ found))
    · simp only [found, hit, and_false, if_true, if_false, Option.some.injEq] at moved ⊢
      rw [← moved, stays]
      exact .stays
  · simp only [found, false_and, if_false, Option.some.injEq] at moved ⊢
    rw [← moved, figures_finish here, Nat.add_zero, Function.update_eq_self]
    exact .stays

theorem moves_exchangeStrong {spin : Nat} {oldCount : Int} (positive : 0 < oldCount)
    (here : state.pcs thread = .exchangeStrong max spin oldCount) (moved : advance state thread spurious = some next) :
    Moves state.figures thread (visible state (.move thread spurious)) next.figures := by
  simp only [advance, here] at moved
  simp only [visible, here]
  split at moved
  · rename_i hit
    rw [if_pos hit, ← Option.some.inj moved, figures_returns state.sleepers
      (by dsimp only; rw [here]; rfl) (by dsimp only; rw [here]; rfl) (by dsimp only; rw [here]; rfl), ← hit]
    exact .takes newCount_nonneg (newCount_le (hit ▸ positive))
  · rename_i missed
    rw [if_neg missed, ← Option.some.inj moved,
      figures_stays (by rw [here]; rfl) (by rw [here]; rfl) (by rw [here]; rfl)]
    exact .stays

/-- The last turn of the loop takes a permit or goes to sleep. -/
theorem moves_spun (low : -2 ^ 63 < state.count) (high : state.count < 2 ^ 63) (here : state.pcs thread = .spin max 0)
    (moved : advance state thread spurious = some next) :
    Moves state.figures thread (visible state (.move thread spurious)) next.figures := by
  simp only [advance, here] at moved
  simp only [visible, here]
  have wide : int64 (state.count - 1) = state.count - 1 := int64_of_bounds (by omega) (by omega)
  split at moved
  · rename_i empty
    simp only [wide, Option.some.injEq] at moved
    rw [if_pos empty, ← moved, figures_threadAt (state.sleepers + 1) state.posting
      (by dsimp only; rw [here]; rfl) (by dsimp only; rw [here]; rfl) (by dsimp only; rw [here]; rfl)]
    exact .sleeps empty
  · rename_i some
    simp only [wide, Option.some.injEq] at moved
    have takes := @Moves.takes _ _ state.figures thread (state.count - 1) (by omega)
      (by simp only [State.figures]; omega)
    have one : state.figures.count - (state.count - 1) = 1 := Int.sub_sub_self _ _
    rw [one] at takes
    rw [if_neg some, ← moved, figures_woken state.sleepers
      (by dsimp only; rw [here]; rfl) (by dsimp only; rw [here]; rfl) (by dsimp only; rw [here]; rfl)]
    exact takes

/-- Neither the sum nor the number of threads to let go leaves its type. -/
theorem moves_fetchAdd {count : Nat} (low : -2 ^ 31 < state.count) (high : state.count + count < 2 ^ 63)
    (here : state.pcs thread = .fetchAdd count) (moved : advance state thread spurious = some next) :
    Moves state.figures thread (visible state (.move thread spurious)) next.figures := by
  simp only [advance, here] at moved
  simp only [visible, here]
  have wide : int64 (state.count + count) = state.count + count := int64_of_bounds (by omega) (by omega)
  split at moved
  · rename_i owed
    have narrow : int32 (toRelease state.count count) = toRelease state.count count :=
      int32_of_bounds (by omega) (by unfold toRelease; split <;> omega)
    rw [← Option.some.inj moved, figures_threadAt state.sleepers _ (by dsimp only; rw [here]; rfl)
      (by dsimp only; rw [here]; rfl) (by dsimp only; rw [here]; rfl), wide, narrow]
    exact .signals
  · rename_i owed
    have nobody : (toRelease state.figures.count count).toNat = 0 := Int.toNat_of_nonpos (Int.not_lt.mp owed)
    have signals := @Moves.signals _ _ state.figures thread count
    rw [← Option.some.inj moved, figures_threadAt state.sleepers state.posting (by dsimp only; rw [here]; rfl)
      (by dsimp only; rw [here]; rfl) (by dsimp only; rw [here]; rfl), wide]
    rwa [nobody] at signals

theorem moves_post {left : Nat} (room : state.sema < semValueMax) (posting : left + 1 ≤ state.posting)
    (here : state.pcs thread = .post (left + 1)) (moved : advance state thread spurious = some next) :
    Moves state.figures thread (visible state (.move thread spurious)) next.figures := by
  simp only [advance, here, if_pos room, Option.some.injEq] at moved
  simp only [visible, here]
  have posted : state.posting - 1 + 1 = state.posting := by omega
  have shifted : state.posting - 1 + (left + 1) = state.posting + left := by omega
  rw [← moved, figures_threadAt state.sleepers (state.posting - 1) (by dsimp only; rw [here]; rfl)
    (by dsimp only; rw [here]; exact shifted) (by dsimp only; rw [here]; rfl)]
  exact .posts posted.symm

theorem moves_of_advance (few : Fintype.card Thread < 2 ^ 31) (valid : Valid state) (bounded : next.signalled < 2 ^ 63)
    (moved : advance state thread spurious = some next) :
    Moves state.figures thread (visible state (.move thread spurious)) next.figures := by
  have grows := signalled_of_advance moved
  obtain ⟨⟨account, covered⟩, positive⟩ := valid
  simp only [State.figures] at account covered
  have asleep := sleepers_le_card state
  have unposted := posting_le state thread
  have positive := positive thread
  cases here : state.pcs thread with
  | outside => simp only [advance, here, reduceCtorEq] at moved
  | load max continuation =>
      simp only [advance, here, Option.some.injEq] at moved
      simp only [visible, here, ← moved]
      rw [figures_stays (by rw [here]; rfl) (by rw [here]; rfl) (by rw [here]; rfl)]
      exact .stays
  | exchangeWeak max continuation oldCount => exact moves_exchangeWeak here moved
  | spin max spin =>
      cases spin with
      | zero =>
          have kept : next.signalled = state.signalled := grows.trans (by rw [here]; rfl)
          exact moves_spun (by omega) (by omega) here moved
      | succ spin =>
          simp only [advance, here] at moved
          simp only [visible, here]
          split at moved <;>
            rw [← Option.some.inj moved, figures_stays (by rw [here]; rfl) (by rw [here]; rfl) (by rw [here]; rfl)] <;>
            exact .stays
  | exchangeStrong max spin oldCount =>
      rw [here] at positive
      exact moves_exchangeStrong positive here moved
  | semaWait max =>
      simp only [advance, here, Option.ite_none_right_eq_some, Option.some.injEq] at moved
      simp only [visible, here]
      obtain ⟨posted, rfl⟩ := moved
      have slept : state.sleepers - 1 + 1 = state.sleepers := by omega
      rw [figures_woken (state.sleepers - 1) (by dsimp only; rw [here]; exact slept)
        (by dsimp only; rw [here]; rfl) (by dsimp only; rw [here]; rfl)]
      exact .wakes (by simp only [State.figures]; omega) slept.symm
  | fetchAdd count =>
      rw [here, Pc.signals] at grows
      exact moves_fetchAdd (by omega) (by omega) here moved
  | post left =>
      cases left with
      | zero =>
          simp only [advance, here, Option.some.injEq] at moved
          simp only [visible, here]
          rw [← moved, figures_stays (by rw [here]; rfl) (by rw [here]; rfl) (by rw [here]; rfl)]
          exact .stays
      | succ left =>
          rw [here, Pc.posting] at unposted
          exact moves_post (by unfold semValueMax; omega) unposted here moved

/-! ## The permits -/

/-- The permits that nobody has taken yet. -/
def Figures.image (figures : Figures Thread) : Semaphore.State Thread where
  value := (figures.count + figures.sleepers).toNat
  held := figures.held

theorem corresponds_of_moves {initialCount : Nat} (sound : Sound before) (moved : Moves before thread seen after) :
    (Semaphore.system initialCount).run before.image seen.toList = some after.image := by
  obtain ⟨account, covered⟩ := sound
  cases moved with
  | stays => rfl
  | takes nonneg fewer =>
      rename_i left
      have enough : (before.count - left).toNat ≤ before.image.value := by
        simp only [Figures.image]
        omega
      have rest : before.image.value - (before.count - left).toNat = (left + before.sleepers).toNat := by
        simp only [Figures.image]
        omega
      refine (@System.run_singleton _ _ (Semaphore.system initialCount) _ _).trans ((if_pos enough).trans ?_)
      rw [rest]
      rfl
  | sleeps empty =>
      have same : (before.count - 1 + (before.sleepers + 1 : Nat)).toNat = (before.count + before.sleepers).toNat := by
        congr 1
        omega
      simp only [Figures.image, same]
      rfl
  | wakes posted slept =>
      rename_i sema sleepers
      have enough : 1 ≤ before.image.value := by
        simp only [Figures.image]
        omega
      have rest : before.image.value - 1 = (before.count + sleepers).toNat := by
        simp only [Figures.image]
        omega
      refine (@System.run_singleton _ _ (Semaphore.system initialCount) _ _).trans ((if_pos enough).trans ?_)
      rw [rest]
      rfl
  | signals =>
      rename_i amount
      have more : before.image.value + amount = (before.count + amount + before.sleepers).toNat := by
        simp only [Figures.image]
        omega
      refine (@System.run_singleton _ _ (Semaphore.system initialCount) _ _).trans (congrArg some ?_)
      rw [more]
      rfl
  | posts left => rfl

end Ndnperf.Cxx.LightweightSemaphore

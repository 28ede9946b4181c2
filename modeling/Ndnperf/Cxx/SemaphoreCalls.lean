import Ndnperf.Cxx.SemaphoreWakeup

namespace Ndnperf.Cxx.LightweightSemaphore

variable {Thread : Type} [DecidableEq Thread] {state before after : State Thread} {thread other : Thread}
  {max result : Nat}

/-! ## What the callers see of a step -/

/-- The other threads are where they were, with what they had. -/
def Leaves (before after : State Thread) (thread : Thread) : Prop :=
  ∀ other, other ≠ thread → after.pcs other = before.pcs other ∧ after.returned other = before.returned other

theorem leaves_threadAt (pc : Pc) : Leaves state (state.threadAt thread pc) thread :=
  fun _ apart => ⟨Function.update_of_ne apart .., rfl⟩

theorem leaves_returns (result : Nat) : Leaves state (state.returns thread result) thread :=
  fun _ apart => ⟨Function.update_of_ne apart .., Function.update_of_ne apart ..⟩

theorem leaves_finish (next : Continuation) : Leaves state (state.finish thread max next result) thread := by
  cases next with
  | result => exact leaves_returns _
  | rest => exact leaves_returns _
  | wait =>
      rw [State.finish]
      split
      · exact leaves_threadAt _
      · exact leaves_returns _

theorem leaves_woken : Leaves state (state.woken thread max) thread := by
  rw [State.woken]
  split
  · exact leaves_threadAt _
  · exact leaves_returns _

theorem leaves_of_advance {spurious : Bool} (moved : advance before thread spurious = some after) :
    Leaves before after thread := by
  cases here : before.pcs thread with
  | outside => simp only [advance, here, reduceCtorEq] at moved
  | load =>
      simp only [advance, here, Option.some.injEq] at moved
      exact moved ▸ leaves_threadAt _
  | exchangeWeak =>
      simp only [advance, here] at moved
      split at moved
      · split at moved
        · exact Option.some.inj moved ▸ leaves_finish _
        · exact Option.some.inj moved ▸ leaves_threadAt _
      · exact Option.some.inj moved ▸ leaves_finish _
  | spin max spin =>
      cases spin with
      | zero =>
          simp only [advance, here] at moved
          split at moved
          · exact Option.some.inj moved ▸ leaves_threadAt _
          · exact Option.some.inj moved ▸ leaves_woken
      | succ spin =>
          simp only [advance, here] at moved
          split at moved <;> exact Option.some.inj moved ▸ leaves_threadAt _
  | exchangeStrong =>
      simp only [advance, here] at moved
      split at moved
      · exact Option.some.inj moved ▸ leaves_returns _
      · exact Option.some.inj moved ▸ leaves_threadAt _
  | semaWait =>
      simp only [advance, here] at moved
      split at moved
      · exact Option.some.inj moved ▸ leaves_woken
      · cases moved
  | fetchAdd =>
      simp only [advance, here] at moved
      split at moved <;> exact Option.some.inj moved ▸ leaves_threadAt _
  | post left =>
      cases left <;> simp only [advance, here, Option.some.injEq] at moved <;> exact moved ▸ leaves_threadAt _

/-- In `wait`, which is `waitMany` for one permit, or back from it. -/
def Pc.WaitsForOne : Pc → Prop
  | .load max .wait | .exchangeWeak max .wait _ | .spin max _ | .exchangeStrong max _ _ | .semaWait max => max = 1
  | .outside => True
  | _ => False

/-- In `signal` for one permit, or back from it. -/
def Pc.SignalsOne : Pc → Prop
  | .fetchAdd count => count = 1
  | .post _ | .outside => True
  | _ => False

/-- A step of `wait` stays in it, or returns with one permit. -/
structure Waits (before after : State Thread) (thread : Thread) : Prop where
  signalled : after.signalled = before.signalled
  waits : (after.pcs thread).WaitsForOne
  returned : after.returned thread = before.returned thread + if after.pcs thread = .outside then 1 else 0

theorem waits_threadAt {middle : State Thread} {pc : Pc} (waits : pc.WaitsForOne) (inside : pc ≠ .outside)
    (signalled : middle.signalled = before.signalled) (returned : middle.returned = before.returned) :
    Waits before (middle.threadAt thread pc) thread := by
  have here : (middle.threadAt thread pc).pcs thread = pc := Function.update_self ..
  refine ⟨signalled, here.symm ▸ waits, ?_⟩
  rw [here, if_neg inside]
  exact congrFun returned thread

theorem waits_returns {middle : State Thread} (one : result = 1) (signalled : middle.signalled = before.signalled)
    (returned : middle.returned = before.returned) : Waits before (middle.returns thread result) thread := by
  have here : (middle.returns thread result).pcs thread = .outside := Function.update_self ..
  refine ⟨signalled, here.symm ▸ trivial, ?_⟩
  rw [if_pos here, one, ← returned]
  exact Function.update_self ..

theorem exchange_one {oldCount : Int} (found : 0 < oldCount) : (oldCount - newCount oldCount 1).toNat = 1 := by
  unfold newCount
  split <;> omega

theorem waits_of_advance {spurious : Bool} (positive : (before.pcs thread).Positive)
    (waits : (before.pcs thread).WaitsForOne)
    (moved : advance before thread spurious = some after) : Waits before after thread := by
  cases here : before.pcs thread with
  | outside => simp only [advance, here, reduceCtorEq] at moved
  | fetchAdd | post =>
      rw [here] at waits
      exact waits.elim
  | load max next =>
      rw [here] at waits
      cases next with
      | result | rest => exact waits.elim
      | wait =>
          simp only [advance, here, Option.some.injEq] at moved
          exact moved ▸ waits_threadAt waits (by simp) rfl rfl
  | exchangeWeak max next oldCount =>
      rw [here] at waits
      cases next with
      | result | rest => exact waits.elim
      | wait =>
          cases waits
          simp only [advance, here] at moved
          split at moved
          · rename_i found
            split at moved
            · rw [State.finish, if_neg (by rw [exchange_one found]; omega)] at moved
              exact Option.some.inj moved ▸ waits_returns (exchange_one found) rfl rfl
            · exact Option.some.inj moved ▸ waits_threadAt rfl (by simp) rfl rfl
          · rw [State.finish, if_pos ⟨rfl, Nat.one_pos⟩] at moved
            exact Option.some.inj moved ▸ waits_threadAt rfl (by simp) rfl rfl
  | spin max spin =>
      rw [here] at waits
      cases waits
      cases spin with
      | zero =>
          simp only [advance, here] at moved
          split at moved
          · exact Option.some.inj moved ▸ waits_threadAt rfl (by simp) rfl rfl
          · exact Option.some.inj moved ▸ waits_returns rfl rfl rfl
      | succ spin =>
          simp only [advance, here] at moved
          split at moved <;> exact Option.some.inj moved ▸ waits_threadAt rfl (by simp) rfl rfl
  | exchangeStrong max spin oldCount =>
      rw [here] at waits positive
      cases waits
      simp only [advance, here] at moved
      split at moved
      · exact Option.some.inj moved ▸ waits_returns (exchange_one positive) rfl rfl
      · exact Option.some.inj moved ▸ waits_threadAt rfl (by simp) rfl rfl
  | semaWait max =>
      rw [here] at waits
      cases waits
      simp only [advance, here] at moved
      split at moved
      · exact Option.some.inj moved ▸ waits_returns rfl rfl rfl
      · cases moved

/-- A step of `signal` stays in it, and signals what it was called for. -/
structure Signals (before after : State Thread) (thread : Thread) : Prop where
  signals : (after.pcs thread).SignalsOne
  signalled : after.signalled + (after.pcs thread).signals = before.signalled + (before.pcs thread).signals
  returned : after.returned thread = before.returned thread

theorem signals_threadAt {middle : State Thread} {pc : Pc} (signals : pc.SignalsOne) (done : pc.signals = 0)
    (signalled : middle.signalled = before.signalled + (before.pcs thread).signals)
    (returned : middle.returned = before.returned) :
    Signals before (middle.threadAt thread pc) thread := by
  have here : (middle.threadAt thread pc).pcs thread = pc := Function.update_self ..
  refine ⟨here.symm ▸ signals, ?_, congrFun returned thread⟩
  rw [here, done]
  exact signalled

theorem signals_of_advance {spurious : Bool} (signals : (before.pcs thread).SignalsOne)
    (moved : advance before thread spurious = some after) : Signals before after thread := by
  cases here : before.pcs thread with
  | outside => simp only [advance, here, reduceCtorEq] at moved
  | load | exchangeWeak | spin | exchangeStrong | semaWait =>
      rw [here] at signals
      exact signals.elim
  | fetchAdd count =>
      simp only [advance, here] at moved
      split at moved <;> exact Option.some.inj moved ▸ signals_threadAt trivial rfl (by rw [here]; rfl) rfl
  | post left =>
      cases left <;> simp only [advance, here, Option.some.injEq] at moved <;>
        exact moved ▸ signals_threadAt trivial rfl (by rw [here]; rfl) rfl

/-! ## The invariant -/

variable [Fintype Thread]

theorem Valid.advance (few : Fintype.card Thread < 2 ^ 31) (valid : Valid before)
    (bounded : after.signalled < 2 ^ 63) {spurious : Bool}
    (moved : LightweightSemaphore.advance before thread spurious = some after) : Valid after :=
  (refines few 0).keeps valid bounded (show (system 0).step before (.move thread spurious) = some after from moved)

theorem Valid.call (few : Fintype.card Thread < 2 ^ 31) (valid : Valid before) (bounded : before.signalled < 2 ^ 63)
    (outside : before.pcs thread = .outside) (call : Call) : Valid (before.threadAt thread call.pc) := by
  have moved : (system 0).step before (.call thread call) = some (before.threadAt thread call.pc) := if_pos outside
  exact (refines few 0).keeps valid bounded moved

omit [DecidableEq Thread] in
/-- Only permits that were signalled have been returned. -/
theorem Valid.returned_le (valid : Valid state) : ∑ thread, state.returned thread ≤ state.signalled := by
  obtain ⟨account, covered⟩ := valid.sound
  simp only [State.figures] at account covered
  have held : ∑ thread, state.returned thread ≤ ∑ thread, state.held thread :=
    Finset.sum_le_sum fun thread _ => Nat.le_add_right _ _
  omega

end Ndnperf.Cxx.LightweightSemaphore

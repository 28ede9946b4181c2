import Ndnperf.Cxx.SemaphorePermits

namespace Ndnperf.Cxx.LightweightSemaphore

open Library Library.Word Library.Transition

variable {Thread : Type} [Fintype Thread] [DecidableEq Thread] {initialCount : Nat} {state before after : State Thread}
  {thread : Thread} {label : Label Thread}

omit [DecidableEq Thread] in
theorem figures_initial :
    (State.initial initialCount : State Thread).figures = ⟨initialCount, 0, 0, 0, fun _ => 0, initialCount⟩ := by
  simp only [State.figures, State.initial, State.sleepers, State.posting, Pc.sleepers, Pc.posting,
    Finset.sum_const_zero]
  rfl

omit [DecidableEq Thread] in
theorem valid_initial : Valid (State.initial initialCount : State Thread) := by
  refine ⟨?_, fun _ => trivial⟩
  rw [figures_initial]
  constructor <;> simp

theorem figures_call {call : Call} (outside : before.pcs thread = .outside) :
    (before.threadAt thread call.pc).figures = before.figures := by
  cases call with
  | tryWaitMany | waitMany | signal =>
      exact figures_threadAt _ _ (by rw [outside]; rfl) (by rw [outside]; rfl) (by rw [outside]; rfl)

theorem moves_of_step (few : Fintype.card Thread < 2 ^ 31) (valid : Valid before) (bounded : after.signalled < 2 ^ 63)
    (moved : step before label = some after) :
    ∃ thread, Moves before.figures thread (visible before label) after.figures := by
  cases label with
  | call thread call =>
      simp only [step, Option.ite_none_right_eq_some, Option.some.injEq] at moved
      rw [← moved.2, figures_call moved.1]
      exact ⟨thread, .stays⟩
  | move thread spurious => exact ⟨thread, moves_of_advance few valid bounded moved⟩

/-- The semaphore is a counting semaphore as long as fewer than `2 ^ 63` permits were signalled. -/
theorem refines (few : Fintype.card Thread < 2 ^ 31) (initialCount : Nat) :
    (system initialCount).Refines (Semaphore.system initialCount) visible
      (fun state : State Thread => state.figures.image) Valid (fun state => state.signalled < 2 ^ 63) where
  start := by
    intro state initial
    rw [show state = .initial initialCount from initial]
    refine ⟨valid_initial, ?_⟩
    rw [figures_initial]
    rfl
  within moved bounded := Nat.lt_of_le_of_lt (signalled_of_step moved) bounded
  keeps := by
    intro before label after valid bounded moved
    obtain ⟨thread, moves⟩ := moves_of_step few valid bounded moved
    exact ⟨valid.sound.moves moves, positive_of_step valid.positive moved⟩
  corresponds := by
    intro before label after valid bounded moved
    obtain ⟨thread, moves⟩ := moves_of_step few valid bounded moved
    exact corresponds_of_moves valid.sound moves

/-- In every interleaving the permits come and go as in a counting semaphore,
and a thread has taken what its calls returned and what the present one is about to. -/
theorem permits_linearizable (few : Fintype.card Thread < 2 ^ 31) {labels : List (Label Thread)}
    (ran : (system initialCount).run (.initial initialCount) labels = some state) (bounded : state.signalled < 2 ^ 63) :
    ∃ permits : Semaphore.State Thread,
      (Semaphore.system initialCount).run (.initial initialCount)
        ((system initialCount).trace visible (.initial initialCount) labels) = some permits ∧
      (∀ thread, permits.held thread = state.returned thread + (state.pcs thread).taken) ∧
      permits.value + ∑ thread, permits.held thread = state.signalled := by
  have valid := (refines few initialCount).invariant (System.Reachable.run (.start rfl) ran) bounded
  have traced := (refines few initialCount).run_trace valid_initial ran bounded
  have start : (State.initial initialCount : State Thread).figures.image = .initial initialCount := by
    rw [figures_initial]
    rfl
  rw [start] at traced
  refine ⟨state.figures.image, traced, fun _ => rfl, ?_⟩
  obtain ⟨account, covered⟩ := valid.sound
  simp only [Figures.image, State.figures] at account covered ⊢
  omega

/-- A signal and a wait that takes its permit at the first attempt. -/
def signalWait : List (Label (Fin 2)) :=
  [.call 1 (.waitMany 1), .call 0 (.signal 1), .move 0 false, .move 1 false, .move 1 false]

def signalWaitEnd : State (Fin 2) where
  count := 0
  sema := 0
  pcs _ := .outside
  signalled := 1
  returned thread := if thread = 1 then 1 else 0

theorem signalWait_run : (system 0).run (.initial 0) signalWait = some signalWaitEnd := by
  have pcs : (fun _ => .outside : Fin 2 → Pc) = Function.update (Function.update (Function.update (Function.update
      (Function.update (fun _ => .outside) 1 (.load 1 .wait)) 0 (.fetchAdd 1)) 0 .outside) 1
      (.exchangeWeak 1 .wait 1)) 1 .outside := by decide
  have returned : (fun thread => if thread = 1 then 1 else 0 : Fin 2 → Nat) =
      Function.update (fun _ => 0) 1 1 := by decide
  rw [signalWaitEnd, pcs, returned]
  rfl

theorem signalWait_linearizable : ∃ permits : Semaphore.State (Fin 2),
    (Semaphore.system 0).run (.initial 0) [.release 1, .acquire 1 1] = some permits ∧
      (∀ thread, permits.held thread = signalWaitEnd.returned thread + (signalWaitEnd.pcs thread).taken) ∧
      permits.value + ∑ thread, permits.held thread = 1 :=
  permits_linearizable (by decide) signalWait_run (by decide)

/-- The wake-ups that have been posted or are bound to be are exactly as many
as can be used: one for each thread that sleeps, up to the number of free permits. -/
theorem wakeups_eq (few : Fintype.card Thread < 2 ^ 31) (reached : (system initialCount).Reachable state)
    (bounded : state.signalled < 2 ^ 63) :
    state.sema + (∑ thread, (state.pcs thread).posting) =
      min (∑ thread, (state.pcs thread).sleepers)
        (state.signalled - ∑ thread, (state.returned thread + (state.pcs thread).taken)) := by
  obtain ⟨account, covered⟩ := ((refines few initialCount).invariant reached bounded).sound
  simp only [State.figures, State.sleepers, State.posting, State.held] at account covered
  omega

omit [Fintype Thread] in
/-- A thread that finds no permit spins to the end. -/
theorem spin_run {max spins : Nat} (none : state.count ≤ 0) (here : state.pcs thread = .spin max spins) :
    (system initialCount).run state (List.replicate spins (.move thread false)) =
      some (state.threadAt thread (.spin max 0)) := by
  induction spins generalizing state with
  | zero =>
      rw [State.threadAt, ← here, Function.update_eq_self]
      rfl
  | succ spins ih =>
      have moved : advance state thread false = some (state.threadAt thread (.spin max spins)) := by
        simp only [advance, here, if_neg (show ¬state.count > 0 by omega)]
      have rest := ih (show (state.threadAt thread (.spin max spins)).count ≤ 0 from none) (Function.update_self ..)
      rw [State.threadAt, State.threadAt, Function.update_idem] at rest
      exact System.run_cons.mpr ⟨_, moved, rest⟩

/-- A call of `wait` that ends in the semaphore. -/
def sleeps (thread : Thread) : List (Label Thread) :=
  [.call thread (.waitMany 1), .move thread false, .move thread false] ++
    List.replicate spinCount (.move thread false) ++ [.move thread false]

omit [Fintype Thread] in
theorem sleep_run (none : state.count ≤ 0) (outside : state.pcs thread = .outside) :
    (system initialCount).run state (sleeps thread) =
      some ({ state with count := int64 (state.count - 1) }.threadAt thread (.semaWait 1)) := by
  let spinning := state.threadAt thread (.spin 1 spinCount)
  have begun : (system initialCount).run state [.call thread (.waitMany 1), .move thread false, .move thread false] =
      some spinning := by
    simp [System.run, system, step, advance, outside, Call.pc, State.threadAt, State.finish, spinning,
      show ¬0 < state.count by omega]
  have spun : (system initialCount).run spinning (List.replicate spinCount (.move thread false)) =
      some (spinning.threadAt thread (.spin 1 0)) :=
    spin_run none (Function.update_self ..)
  have slept : advance (spinning.threadAt thread (.spin 1 0)) thread false =
      some ({ state with count := int64 (state.count - 1) }.threadAt thread (.semaWait 1)) := by
    simp [advance, State.threadAt, spinning, none]
  refine System.run_append.mpr ⟨_, System.run_append.mpr ⟨_, begun, spun⟩, ?_⟩
  exact (System.run_singleton _ _).trans slept

/-- Two threads sleep, and a third has signalled two permits and posted one of them. -/
def sleepPost : List (Label (Fin 3)) :=
  sleeps 1 ++ sleeps 2 ++ [.call 0 (.signal 2), .move 0 false, .move 0 false]

def sleepPostEnd : State (Fin 3) where
  count := 0
  sema := 1
  pcs thread := if thread = 0 then .post 1 else .semaWait 1
  signalled := 2
  returned _ := 0

theorem sleepPost_run : (system 0).run (.initial 0) sleepPost = some sleepPostEnd := by
  let first : State (Fin 3) := { State.initial 0 with count := int64 (0 - 1) }.threadAt 1 (.semaWait 1)
  let second : State (Fin 3) := { first with count := int64 (first.count - 1) }.threadAt 2 (.semaWait 1)
  have one : (system 0).run (.initial 0) (sleeps 1) = some first := sleep_run (by decide) rfl
  have two : (system 0).run first (sleeps 2) = some second := sleep_run (by decide) rfl
  have signalled : (system 0).run second [.call 0 (.signal 2), .move 0 false, .move 0 false] = some sleepPostEnd := by
    have pcs : (fun thread => if thread = 0 then .post 1 else .semaWait 1 : Fin 3 → Pc) =
        Function.update (Function.update (Function.update second.pcs 0 (.fetchAdd 2)) 0 (.post 2)) 0
          (.post 1) := by decide
    rw [sleepPostEnd, pcs]
    rfl
  exact System.run_append.mpr ⟨second, System.run_append.mpr ⟨first, one, two⟩, signalled⟩

theorem sleepPost_wakeups :
    sleepPostEnd.sema + (∑ thread, (sleepPostEnd.pcs thread).posting) =
      min (∑ thread, (sleepPostEnd.pcs thread).sleepers)
        (sleepPostEnd.signalled - ∑ thread, (sleepPostEnd.returned thread + (sleepPostEnd.pcs thread).taken)) :=
  wakeups_eq (by decide) (.run (.start rfl) sleepPost_run) (by decide)

/-! ## A waiting thread gets through -/

/-- In `waitMany`, without a permit so far. -/
def Pc.Waits : Pc → Prop
  | .load max .wait | .exchangeWeak max .wait _ | .spin max _ | .exchangeStrong max _ _ | .semaWait max => 0 < max
  | _ => False

/-- At the end of `waitMany`, with a permit. -/
def Pc.Ends : Pc → Prop
  | .load _ .rest | .exchangeWeak _ .rest _ | .outside => True
  | _ => False

def Continuation.rank : Continuation → Nat
  | .wait => 2 * spinCount + 6
  | .result | .rest => 0

/-- How far a thread is from the end of its call while the count does not change. -/
def rank (state : State Thread) (thread : Thread) : Nat :=
  match state.pcs thread with
  | .outside | .fetchAdd _ | .post _ => 0
  | .load _ next => next.rank + 3
  | .exchangeWeak _ next oldCount => next.rank + if state.count = oldCount then 1 else 2
  | .spin _ spin => 2 * spin + 6
  | .exchangeStrong _ spin _ => 2 * spin + 7
  | .semaWait _ => if state.sema = 0 then 5 else 4

/-- A step of the thread that brings it nearer to the end of its call. -/
inductive Nearer (before : State Thread) (thread : Thread) (after : State Thread) : Prop where
  | waits (seen : visible before (.move thread false) = none) (here : (after.pcs thread).Waits)
  | takes {amount : Nat} (seen : visible before (.move thread false) = some (.acquire thread amount))
      (some : 0 < amount)
      (here : (after.pcs thread).Ends)

omit [Fintype Thread] in
theorem woken_ends {max : Nat} :
    ((state.woken thread max).pcs thread).Ends ∧ rank (state.woken thread max) thread ≤ 3 := by
  rw [State.woken]
  split <;> simp [State.threadAt, State.returns, rank, Pc.Ends, Continuation.rank]

theorem exchange_pos {oldCount : Int} {max : Nat} (found : 0 < oldCount) (some : 0 < max) :
    0 < (oldCount - newCount oldCount max).toNat := by
  unfold newCount
  split <;> omega

omit [Fintype Thread] in
theorem finish_wait {max result : Nat} (some : result ≠ 0) :
    state.finish thread max .wait result = state.returns thread result :=
  if_neg fun none => some none.1

theorem wait_step (valid : Valid state) (waits : (state.pcs thread).Waits)
    (posted : ∀ max, state.pcs thread = .semaWait max → 0 < state.sema) :
    ∃ next, advance state thread false = some next ∧ Nearer state thread next ∧
      rank next thread < rank state thread := by
  have positive := valid.positive thread
  cases here : state.pcs thread with
  | outside | fetchAdd | post => simp [here, Pc.Waits] at waits
  | load max continuation =>
      cases continuation with
      | result | rest => simp [here, Pc.Waits] at waits
      | wait =>
          rw [here] at waits
          refine ⟨_, by rw [advance, here], .waits (by rw [visible, here]) ?_, ?_⟩
          · simpa [State.threadAt, Pc.Waits] using waits
          · simp [rank, here, State.threadAt]
  | exchangeWeak max continuation oldCount =>
      cases continuation with
      | result | rest => simp [here, Pc.Waits] at waits
      | wait =>
          rw [here] at waits
          by_cases found : 0 < oldCount
          · by_cases hit : state.count = oldCount
            · have some := exchange_pos found waits
              refine ⟨_, by simp only [advance, here, found, hit, and_self, if_true]; rfl,
                .takes (by simp only [visible, here, found, hit, and_self, if_true]) some ?_, ?_⟩
              · rw [finish_wait some.ne']
                simp [State.returns, Pc.Ends]
              · rw [finish_wait some.ne']
                simp [State.returns, rank, here, hit]
            · refine ⟨_, by simp only [advance, here, found, hit, false_and, if_true, if_false]; rfl,
                .waits (by simp only [visible, here, hit, false_and, and_false, if_false]) ?_, ?_⟩
              · simpa [State.threadAt, Pc.Waits] using waits
              · simp [State.threadAt, rank, here, hit]
          · have again : state.finish thread max .wait 0 = state.threadAt thread (.spin max spinCount) :=
              if_pos ⟨rfl, waits⟩
            refine ⟨_, by simp only [advance, here, found, if_false, again]; rfl,
              .waits (by simp only [visible, here, found, false_and, if_false]) ?_, ?_⟩
            · simpa [State.threadAt, Pc.Waits] using waits
            · simp only [State.threadAt, rank, here, Function.update_self, Continuation.rank]
              split <;> omega
  | spin max spin =>
      rw [here] at waits
      cases spin with
      | zero =>
          by_cases empty : state.count ≤ 0
          · refine ⟨_, by simp only [advance, here, if_pos empty]; rfl,
              .waits (by simp only [visible, here, if_pos empty]) ?_, ?_⟩
            · simpa [State.threadAt, Pc.Waits] using waits
            · simp only [State.threadAt, rank, here, Function.update_self]
              change (if state.sema = 0 then 5 else 4) < 6
              split <;> omega
          · refine ⟨_, by simp only [advance, here, if_neg empty]; rfl,
              .takes (by simp only [visible, here, if_neg empty]) Nat.one_pos woken_ends.1, ?_⟩
            refine Nat.lt_of_le_of_lt woken_ends.2 ?_
            simp only [rank, here]
            omega
      | succ spin =>
          by_cases found : state.count > 0
          · refine ⟨_, by simp only [advance, here, if_pos found]; rfl, .waits (by simp only [visible, here]) ?_, ?_⟩
            · simpa [State.threadAt, Pc.Waits] using waits
            · simp only [State.threadAt, rank, here, Function.update_self]
              omega
          · refine ⟨_, by simp only [advance, here, if_neg found]; rfl, .waits (by simp only [visible, here]) ?_, ?_⟩
            · simpa [State.threadAt, Pc.Waits] using waits
            · simp only [State.threadAt, rank, here, Function.update_self]
              omega
  | exchangeStrong max spin oldCount =>
      rw [here] at waits positive
      by_cases hit : state.count = oldCount
      · have some := exchange_pos positive waits
        refine ⟨_, by simp only [advance, here, if_pos hit]; rfl,
          .takes (by simp only [visible, here, if_pos hit]) some ?_, ?_⟩
        · simp [State.returns, Pc.Ends]
        · simp [State.returns, rank, here]
      · refine ⟨_, by simp only [advance, here, if_neg hit]; rfl,
          .waits (by simp only [visible, here, if_neg hit]) ?_, ?_⟩
        · simpa [State.threadAt, Pc.Waits] using waits
        · simp only [State.threadAt, rank, here, Function.update_self]
          omega
  | semaWait max =>
      have found := posted max here
      refine ⟨_, by simp only [advance, here, if_pos found]; rfl, .takes (by rw [visible, here]) Nat.one_pos ?_, ?_⟩
      · exact woken_ends.1
      · refine Nat.lt_of_le_of_lt woken_ends.2 ?_
        simp only [rank, here]
        split <;> omega

omit [Fintype Thread] in
theorem end_step (ends : (state.pcs thread).Ends) (inside : state.pcs thread ≠ .outside) :
    ∃ next, advance state thread false = some next ∧ (next.pcs thread).Ends ∧ rank next thread < rank state thread := by
  cases here : state.pcs thread with
  | outside => exact absurd here inside
  | spin | exchangeStrong | semaWait | fetchAdd | post => simp [here, Pc.Ends] at ends
  | load max continuation =>
      cases continuation with
      | result | wait => simp [here, Pc.Ends] at ends
      | rest =>
          refine ⟨_, by rw [advance, here], ?_, ?_⟩
          · simp [State.threadAt, Pc.Ends]
          · simp [rank, here, State.threadAt]
  | exchangeWeak max continuation oldCount =>
      cases continuation with
      | result | wait => simp [here, Pc.Ends] at ends
      | rest =>
          by_cases found : 0 < oldCount
          · by_cases hit : state.count = oldCount
            · refine ⟨_, by simp only [advance, here, found, hit, and_self, if_true]; rfl, ?_, ?_⟩
              · simp [State.finish, State.returns, Pc.Ends]
              · simp [State.finish, State.returns, rank, here, hit]
            · refine ⟨_, by simp only [advance, here, found, hit, false_and, if_true, if_false]; rfl, ?_, ?_⟩
              · simp [State.threadAt, Pc.Ends]
              · simp [State.threadAt, rank, here, hit]
          · refine ⟨_, by simp only [advance, here, found, if_false]; rfl, ?_, ?_⟩
            · simp [State.finish, State.returns, Pc.Ends]
            · simp only [State.finish, State.returns, rank, here, Function.update_self]
              split <;> omega

omit [Fintype Thread] in
/-- A thread that is bound to wake others brings a sleeper nearer to its end. -/
theorem post_step {max : Nat} {other : Thread}
    (sleeps : state.pcs thread = .semaWait max) (unposted : state.sema = 0) (posts : 0 < (state.pcs other).posting) :
    ∃ next, advance state other false = some next ∧ visible state (.move other false) = none ∧
      next.pcs thread = .semaWait max ∧ rank next thread < rank state thread ∧ (state.pcs other).signals = 0 ∧
      ∀ third, 0 < (next.pcs third).posting → 0 < (state.pcs third).posting := by
  cases here : state.pcs other with
  | post left =>
      cases left with
      | zero => simp [here, Pc.posting] at posts
      | succ left =>
          have different : thread ≠ other := by
            intro same
            rw [same, here] at sleeps
            cases sleeps
          have room : state.sema < semValueMax := by
            rw [unposted]
            decide
          refine ⟨_, by simp only [advance, here, if_pos room]; rfl, by simp only [visible, here], ?_, ?_, rfl, ?_⟩
          · simpa only [State.threadAt, Function.update_of_ne different] using sleeps
          · simp [State.threadAt, rank, Function.update_of_ne different, sleeps, unposted]
          · intro third left
            by_cases same : third = other
            · exact same ▸ posts
            · simpa only [State.threadAt, Function.update_of_ne same] using left
  | outside | load | exchangeWeak | spin | exchangeStrong | semaWait | fetchAdd => simp [here, Pc.posting] at posts

/-- What holds from a wait of the thread in the state `start` to the end of its
call, while only it and those bound to wake others move. -/
structure Proceeds (start : State Thread) (thread : Thread) (state : State Thread) : Prop where
  valid : Valid state
  bounded : state.signalled < 2 ^ 63
  posts : ∀ other, 0 < (state.pcs other).posting → 0 < (start.pcs other).posting
  here : ((state.pcs thread).Waits ∧ 0 < state.figures.image.value ∧ state.held thread = start.held thread) ∨
    ((state.pcs thread).Ends ∧ start.held thread < state.held thread)

variable {start next : State Thread}

theorem Pc.Waits.idle {pc : Pc} (waits : pc.Waits) : pc.signals = 0 ∧ pc.posting = 0 := by
  cases pc with
  | load | exchangeWeak | spin | exchangeStrong | semaWait => exact ⟨rfl, rfl⟩
  | outside | fetchAdd | post => exact waits.elim

theorem Pc.Ends.idle {pc : Pc} (ends : pc.Ends) : pc.signals = 0 ∧ pc.posting = 0 := by
  cases pc with
  | outside | load | exchangeWeak => exact ⟨rfl, rfl⟩
  | spin | exchangeStrong | semaWait | fetchAdd | post => exact ends.elim

omit [Fintype Thread] in
theorem Moves.held_le {before after : Figures Thread} {mover : Thread} {seen : Option (Semaphore.Label Thread)}
    (moved : Moves before mover seen after) (other : Thread) : before.held other ≤ after.held other := by
  have grows : ∀ amount, before.held other ≤ Function.update before.held mover (before.held mover + amount) other := by
    intro amount
    by_cases same : other = mover
    · rw [same, Function.update_self]
      exact Nat.le_add_right _ _
    · rw [Function.update_of_ne same]
  cases moved with
  | takes | wakes => exact grows _
  | stays | sleeps | signals | posts => exact Nat.le_refl _

omit [Fintype Thread] in
/-- A step of the thread itself does not make it a thread that wakes others. -/
theorem posts_of_own (moved : advance state thread false = some next) (idle : (next.pcs thread).posting = 0)
    {other : Thread} (posts : 0 < (next.pcs other).posting) : 0 < (state.pcs other).posting := by
  obtain ⟨pc, updated, _⟩ := pcs_of_advance moved
  have different : other ≠ thread := by
    intro same
    rw [same, idle] at posts
    exact Nat.lt_irrefl _ posts
  rwa [updated, Function.update_of_ne different] at posts

theorem Proceeds.own (few : Fintype.card Thread < 2 ^ 31) (proceeds : Proceeds start thread state)
    (posted : ∀ max, state.pcs thread = .semaWait max → 0 < state.sema) (unfinished : state.pcs thread ≠ .outside) :
    ∃ next, advance state thread false = some next ∧ Proceeds start thread next ∧
      rank next thread < rank state thread := by
  have correct := refines few 0
  rcases proceeds.here with waiting | ending
  · obtain ⟨waits, free, same⟩ := waiting
    obtain ⟨next, moved, nearer, closer⟩ := wait_step proceeds.valid waits posted
    have signalled := signalled_of_advance moved
    have bounded := proceeds.bounded
    rw [waits.idle.1, Nat.add_zero] at signalled
    rw [← signalled] at bounded
    have step : (system 0).step state (.move thread false) = some next := moved
    have looks := correct.corresponds proceeds.valid bounded step
    refine ⟨next, moved, ⟨correct.keeps proceeds.valid bounded step, bounded, ?_, ?_⟩, closer⟩
    · intro other posts
      refine proceeds.posts other (posts_of_own moved ?_ posts)
      cases nearer with
      | waits _ here => exact here.idle.2
      | takes _ _ here => exact here.idle.2
    · cases nearer with
      | waits silent here =>
          rw [silent] at looks
          have image := Option.some.inj looks
          refine .inl ⟨here, image ▸ free, ?_⟩
          rw [← same]
          exact congrFun (congrArg Semaphore.State.held image).symm thread
      | takes seen some here =>
          rename_i amount
          rw [seen] at looks
          simp only [Option.toList_some, System.run_singleton, Semaphore.system, Semaphore.step,
            Option.ite_none_right_eq_some, Option.some.injEq] at looks
          have held := congrFun (congrArg Semaphore.State.held looks.2) thread
          simp only [Function.update_self] at held
          refine .inr ⟨here, ?_⟩
          change state.held thread + amount = next.held thread at held
          omega
  · obtain ⟨ends, more⟩ := ending
    obtain ⟨next, moved, here, closer⟩ := end_step ends unfinished
    have signalled := signalled_of_advance moved
    have bounded := proceeds.bounded
    rw [ends.idle.1, Nat.add_zero] at signalled
    rw [← signalled] at bounded
    have step : (system 0).step state (.move thread false) = some next := moved
    refine ⟨next, moved, ⟨correct.keeps proceeds.valid bounded step, bounded, ?_, .inr ⟨here, ?_⟩⟩, closer⟩
    · intro other posts
      exact proceeds.posts other (posts_of_own moved here.idle.2 posts)
    · exact Nat.lt_of_lt_of_le more ((moves_of_advance few proceeds.valid bounded moved).held_le thread)

/-- Where the thread sleeps unposted although a permit is free, some thread is bound to wake it. -/
theorem Proceeds.posted (few : Fintype.card Thread < 2 ^ 31) (proceeds : Proceeds start thread state) {max : Nat}
    (sleeps : state.pcs thread = .semaWait max) (unposted : state.sema = 0) :
    ∃ other next, 0 < (start.pcs other).posting ∧ advance state other false = some next ∧
      Proceeds start thread next ∧ rank next thread < rank state thread := by
  have correct := refines few 0
  rcases proceeds.here with waiting | ending
  · obtain ⟨waits, free, same⟩ := waiting
    have asleep : 0 < state.sleepers := by
      have own : (state.pcs thread).sleepers = 1 := by rw [sleeps]; rfl
      exact Finset.sum_pos' (fun _ _ => Nat.zero_le _) ⟨thread, Finset.mem_univ thread, by rw [own]; exact Nat.one_pos⟩
    have posting : 0 < state.posting := by
      obtain ⟨account, covered⟩ := proceeds.valid.sound
      simp only [State.figures, Figures.image] at account covered free
      omega
    obtain ⟨other, _, posts⟩ := Finset.exists_ne_zero_of_sum_ne_zero posting.ne'
    have posts := Nat.pos_of_ne_zero posts
    obtain ⟨next, moved, silent, still, closer, quiet, fewer⟩ := post_step sleeps unposted posts
    have signalled := signalled_of_advance moved
    have bounded := proceeds.bounded
    rw [quiet, Nat.add_zero] at signalled
    rw [← signalled] at bounded
    have step : (system 0).step state (.move other false) = some next := moved
    have looks := correct.corresponds proceeds.valid bounded step
    rw [silent] at looks
    have image := Option.some.inj looks
    refine ⟨other, next, proceeds.posts other posts, moved, ⟨correct.keeps proceeds.valid bounded step, bounded,
      fun third posts => proceeds.posts third (fewer third posts), .inl ⟨?_, image ▸ free, ?_⟩⟩, closer⟩
    · rwa [still, ← sleeps]
    · rw [← same]
      exact congrFun (congrArg Semaphore.State.held image).symm thread
  · rw [sleeps] at ending
    exact ending.1.elim

/-- A thread that waits while a permit is free can return with one, by its own
steps and those of the threads that are already bound to wake others. -/
theorem wait_returns (few : Fintype.card Thread < 2 ^ 31) (reached : (system initialCount).Reachable state)
    (bounded : state.signalled < 2 ^ 63) (waits : (state.pcs thread).Waits)
    (free : ∑ other, (state.returned other + (state.pcs other).taken) < state.signalled) :
    (system initialCount).CanReach
      (fun label => ∃ other, (other = thread ∨ 0 < (state.pcs other).posting) ∧ label = .move other false)
      (fun after => after.pcs thread = .outside ∧ state.returned thread < after.returned thread) state := by
  have valid := (refines few initialCount).invariant reached bounded
  have value : 0 < state.figures.image.value := by
    obtain ⟨account, covered⟩ := valid.sound
    simp only [Figures.image, State.figures, State.held] at account covered free ⊢
    omega
  have proceeds : Proceeds state thread state := ⟨valid, bounded, fun _ => id, .inl ⟨waits, value, rfl⟩⟩
  refine @System.canReach_of_measure _ _ _ _ (Proceeds state thread) _ (rank · thread)
    (fun {before} proceeds unmet => ?_) _
    proceeds
  by_cases finished : before.pcs thread = .outside
  · have nothing : (before.pcs thread).taken = 0 := by rw [finished]; rfl
    refine absurd ⟨finished, ?_⟩ unmet
    rcases proceeds.here with waiting | ending
    · rw [finished] at waiting
      exact waiting.1.elim
    · have more := ending.2
      simp only [State.held] at more
      omega
  · by_cases blocked : (∃ max, before.pcs thread = .semaWait max) ∧ before.sema = 0
    · obtain ⟨⟨max, sleeps⟩, unposted⟩ := blocked
      obtain ⟨other, next, posts, moved, proceeds, closer⟩ := proceeds.posted few sleeps unposted
      exact System.canReach_of_step ⟨other, .inr posts, rfl⟩ moved ⟨proceeds, closer⟩
    · have posted : ∀ max, before.pcs thread = .semaWait max → 0 < before.sema :=
        fun max sleeps => Nat.pos_of_ne_zero fun unposted => blocked ⟨⟨max, sleeps⟩, unposted⟩
      obtain ⟨next, moved, proceeds, closer⟩ := proceeds.own few posted finished
      exact System.canReach_of_step ⟨thread, .inl rfl, rfl⟩ moved ⟨proceeds, closer⟩

theorem waitMany_returns :
    (system 1).CanReach
      (fun label => ∃ other : Fin 2, (other = 0 ∨
        0 < (((State.initial 1).threadAt 0 (.load 1 .wait)).pcs other).posting) ∧
        label = .move other false)
      (fun after => after.pcs 0 = .outside ∧ 0 < after.returned 0) ((State.initial 1).threadAt 0 (.load 1 .wait)) :=
  @wait_returns _ _ _ 1 _ 0 (by decide) (@System.Reachable.step _ _ _ _ _ (.call 0 (.waitMany 1)) (.start rfl) rfl)
    (by decide) Nat.one_pos (by decide)

end Ndnperf.Cxx.LightweightSemaphore

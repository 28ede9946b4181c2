import Mathlib.Data.List.ProdSigma
import Mathlib.Data.Int.ModEq
import Ndnperf.Library.Threads
import Ndnperf.Cxx.Threads

namespace Ndnperf.Cxx

open Ndn Library.Word Library.Threads Library.Transition

theorem LogVars.get_add (log : LogVars) (amount : Int) (counter other : Counter) :
    (log.add amount counter).get other = if other = counter then int32 (log.get other + amount) else log.get other := by
  cases counter <;> cases other <;> rfl

/-- Two's complement loses nothing of an addition modulo 2^32. -/
theorem LogVars.Adds.get {log next : LogVars} {counter : Counter} {amount : Nat} (adds : log.Adds counter amount next)
    {sums : Counter → Nat} (held : ∀ other, log.get other = int32 (sums other)) (other : Counter) :
    next.get other = int32 ((if other = counter then sums other + amount else sums other : Nat) : Int) := by
  obtain rfl | ⟨rfl, rfl⟩ := adds
  · rw [get_add]
    split
    · rw [held, int32_int32_add, Nat.cast_add]
    · exact held other
  · rw [held, Nat.add_zero, ite_self]

namespace Threads

variable {ndn : NdnCxx} {server : Server} {workers : Nat} {state before after : State workers} {label : Label workers}
  {thread : Fin workers} {counter : Counter} {lists : Fin workers → Counter → List Nat} {list : List Nat}
  {left : List (Fin workers × Counter)}

/-! ## Sums over the workers -/

/-- What the workers have in one place, but for those that are left. -/
def sumExcept (left : List (Fin workers × Counter)) (lists : Fin workers → Counter → List Nat) (counter : Counter) :
    Nat :=
  ∑ thread, if (thread, counter) ∈ left then 0 else (lists thread counter).sum

def total (lists : Fin workers → Counter → List Nat) (counter : Counter) : Nat := ∑ thread, (lists thread counter).sum

theorem sumExcept_nil : sumExcept [] lists counter = total lists counter := by
  simp [sumExcept, total]

theorem mem_places (thread : Fin workers) (counter : Counter) :
    (thread, counter) ∈ (places : List (Fin workers × Counter)) := by
  refine List.mem_product.mpr ⟨List.mem_finRange thread, ?_⟩
  cases counter <;> decide

theorem nodup_places : (places : List (Fin workers × Counter)).Nodup :=
  (List.nodup_finRange workers).product (by decide)

theorem sumExcept_places : sumExcept places lists counter = 0 := by
  simp [sumExcept, mem_places]

theorem put_apply (other : Fin workers) (place : Counter) :
    put lists thread counter list other place = if (other, place) = (thread, counter) then list
      else lists other place := by
  unfold put
  by_cases same : other = thread
  · subst same
    rw [Function.update_self, Function.update_apply]
    simp
  · rw [Function.update_of_ne same, if_neg (by simp [same])]

/-- One more place is read. -/
theorem sumExcept_put (distinct : ((thread, counter) :: left).Nodup) (place : Counter) :
    sumExcept left (put lists thread counter list) place =
      sumExcept ((thread, counter) :: left) lists place + if place = counter then list.sum else 0 := by
  have unread : (thread, counter) ∉ left := (List.nodup_cons.mp distinct).1
  by_cases same : place = counter
  · subst same
    have counted := sum_update (fun other => if (other, place) ∈ (thread, place) :: left then 0
        else (lists other place).sum)
      thread list.sum
    have moved : ∀ other, (if (other, place) ∈ left then 0 else (put lists thread place list other place).sum) =
        Function.update (fun other => if (other, place) ∈ (thread, place) :: left then 0 else (lists other place).sum)
          thread list.sum other := by
      intro other
      rw [put_apply, Function.update_apply]
      by_cases here : other = thread
      · simp [here, unread]
      · simp [here]
    simp only [List.mem_cons_self, if_true, Nat.add_zero] at counted
    rw [if_pos rfl, sumExcept, Finset.sum_congr rfl fun other _ => moved other, counted]
    rfl
  · rw [if_neg same, Nat.add_zero]
    refine Finset.sum_congr rfl fun other _ => ?_
    rw [put_apply]
    simp [same]

/-! ## The sums that `display` keeps -/

/-- The two halves of `log_vars`: the negated sum that was reported last, and
the part of the next one that has been read. -/
def Displays (state : State workers) : DisplayPc workers → Prop
  | .test => state.base = state.seen ∧ ∀ counter, state.new counter = int32 (total state.seen counter)
  | .read left =>
      left.Nodup ∧ (∀ thread counter, (thread, counter) ∈ left →
        state.seen thread counter = state.base thread counter) ∧
        ∀ counter, state.last counter = int32 (-(total state.base counter : Int)) ∧
          state.new counter = int32 (sumExcept left state.seen counter)
  | .exited => state.base = state.seen

/-- A round whose differences are what was added, as far as 32 bits can tell. -/
def Round.Sound (round : Round workers) : Prop :=
  (∀ counter, round.differences counter = int32 (total round.amounts counter)) ∧
    round.report = Threads.report round.differences

structure Counted (state : State workers) : Prop where
  rows : ∀ thread counter, (state.rows thread).log.get counter = int32 ((state.made thread counter).sum : Nat)
  base : ∀ thread counter, state.base thread counter <+: state.seen thread counter
  seen : ∀ thread counter, state.seen thread counter <+: state.made thread counter
  displays : Displays state state.display
  sound : ∀ round ∈ state.rounds, round.Sound
  reported : ∀ thread counter, (state.rounds.map (·.amounts thread counter)).flatten = state.base thread counter

theorem counted_initial (buffers : Fin workers → Bytes) : Counted (.initial buffers) where
  rows _ counter := by cases counter <;> simp [State.initial, Worker.start, LogVars.get, int32]
  base _ _ := List.prefix_rfl
  seen _ _ := List.prefix_rfl
  displays := ⟨rfl, fun counter => by simp [State.initial, total, int32]⟩
  sound := by simp [State.initial]
  reported _ _ := rfl

theorem Counted.works {added : Option (Fin workers × Counter × Nat)} (counted : Counted before)
    (worked : Works before thread added after) : Counted after := by
  cases worked with
  | tested | took | threw => exact { counted with }
  | @grew counter amount row next sent follows adds closes =>
      refine { counted with rows := fun other place => ?_, seen := fun other place => ?_ }
      · simp only [State.workerAt, State.grow, put_apply]
        by_cases same : other = thread
        · subst same
          rw [Function.update_self, adds.get (counted.rows other)]
          by_cases here : place = counter
          · subst here
            simp
          · simp [here]
        · rw [Function.update_of_ne same, if_neg (by simp [same])]
          exact counted.rows other place
      · simp only [State.workerAt, State.grow, put_apply]
        split
        · rename_i here
          obtain ⟨rfl, rfl⟩ := Prod.mk.inj here
          exact (counted.seen _ _).trans (List.prefix_append _ _)
        · exact counted.seen other place

theorem total_add_drop {seen base : Fin workers → Counter → List Nat}
    (grown : ∀ thread counter, base thread counter <+: seen thread counter) (counter : Counter) :
    total seen counter =
      total base counter + total (fun thread counter => (seen thread counter).drop (base thread counter).length)
        counter := by
  rw [total, total, total, ← Finset.sum_add_distrib]
  refine Finset.sum_congr rfl fun thread _ => ?_
  obtain ⟨rest, whole⟩ := grown thread counter
  rw [← whole, List.drop_left, List.sum_append]

/-- The state after one place is read. -/
theorem Counted.read (counted : Counted before) (displays : Displays before (.read ((thread, counter) :: left))) :
    Counted { before with
      display := .read left
      new := Function.update before.new counter (int32 (before.new counter + (before.rows thread).log.get counter))
      seen := put before.seen thread counter (before.made thread counter) } := by
  obtain ⟨distinct, unread, halves⟩ := displays
  refine { counted with
    base := fun other place => ?_
    seen := fun other place => ?_
    displays := ⟨(List.nodup_cons.mp distinct).2, fun other place member => ?_, fun place => ⟨(halves place).1, ?_⟩⟩ }
  · simp only [put_apply]
    split
    · rename_i here
      obtain ⟨rfl, rfl⟩ := Prod.mk.inj here
      exact (counted.base _ _).trans (counted.seen _ _)
    · exact counted.base other place
  · simp only [put_apply]
    split
    · rename_i here
      obtain ⟨rfl, rfl⟩ := Prod.mk.inj here
      exact List.prefix_rfl
    · exact counted.seen other place
  · have different : (other, place) ≠ (thread, counter) := fun same => (List.nodup_cons.mp distinct).1 (same ▸ member)
    simp only [put_apply, if_neg different]
    exact unread other place (List.mem_cons_of_mem _ member)
  · simp only [sumExcept_put distinct]
    by_cases same : place = counter
    · subst same
      rw [Function.update_self, (halves place).2, counted.rows, int32_add_int32, if_pos rfl, Nat.cast_add]
    · rw [Function.update_of_ne same, if_neg same, Nat.add_zero, (halves place).2]

theorem Counted.displayed (counted : Counted before) (moved : displayStep before = some after) : Counted after := by
  have displays := counted.displays
  rcases here : before.display with _ | ⟨_ | ⟨⟨thread, counter⟩, left⟩⟩ | _ <;>
    simp only [displayStep, here, reduceCtorEq] at moved <;> rw [here] at displays
  · obtain ⟨same, new⟩ := displays
    split at moved
    · exact Option.some.inj moved ▸ { counted with displays := same }
    · refine Option.some.inj moved ▸ { counted with displays := ⟨nodup_places, fun thread counter _ => ?_,
        fun counter => ?_⟩ }
      · exact (congrFun (congrFun same thread) counter).symm
      · refine ⟨?_, ?_⟩
        · simp only [new, int32_neg_int32, same]
        · rw [sumExcept_places]
          rfl
  · obtain ⟨_, _, halves⟩ := displays
    have differences : ∀ counter, before.differences counter = int32 (total (fun thread counter =>
        (before.seen thread counter).drop (before.base thread counter).length) counter) := by
      intro counter
      obtain ⟨last, new⟩ := halves counter
      rw [State.differences, last, new, int32_add_int32, sumExcept_nil, total_add_drop counted.base, Nat.cast_add,
        neg_add_cancel_left]
    refine Option.some.inj moved ▸ { counted with base := ?_, displays := ⟨rfl, ?_⟩, sound := ?_, reported := ?_ }
    · exact fun _ _ => List.prefix_rfl
    · exact fun counter => (halves counter).2.trans (by rw [sumExcept_nil])
    · exact List.forall_mem_append.mpr ⟨counted.sound, List.forall_mem_singleton.mpr ⟨differences, rfl⟩⟩
    · intro thread counter
      obtain ⟨rest, whole⟩ := counted.base thread counter
      simp only [List.map_append, List.flatten_append, counted.reported, List.map_cons, List.map_nil, List.flatten_cons,
        List.flatten_nil, List.append_nil, ← whole, List.drop_left]
  · exact Option.some.inj moved ▸ counted.read displays

theorem counted_inductive : (system ndn server : System (State workers) (Label workers)).Inductive Counted where
  start := by
    intro state begun
    obtain ⟨buffers, rfl⟩ := begun
    exact counted_initial buffers
  step := by
    intro before label after counted moved
    simp only [system, step] at moved
    split at moved
    · cases moved
    · cases label with
      | onInterest | face =>
          simp only [Option.ite_none_right_eq_some, Option.some.injEq] at moved
          obtain ⟨_, rfl⟩ := moved
          exact { counted with }
      | stop =>
          obtain ⟨stop, ioStopped, queue, stopping, rfl⟩ := stopStep_frame moved
          exact { counted with }
      | worker thread pick fileSystem duration => exact counted.works (works_of_step moved)
      | display => exact counted.displayed moved

/-! ## What is printed -/

theorem Round.Sound.modEq {round : Round workers} (sound : round.Sound) (counter : Counter) :
    round.differences counter ≡ total round.amounts counter [ZMOD 2 ^ 32] := by
  rw [sound.1 counter, int32]
  exact Int.bmod_emod

theorem Round.Sound.exact {round : Round workers} (sound : round.Sound) (fits : total round.amounts counter < 2 ^ 31) :
    round.differences counter = total round.amounts counter := by
  rw [sound.1 counter, int32_of_bounds (by omega) (by omega)]

theorem quotient_exact {sum count : Nat} (nonzero : count ≠ 0) (fits : sum < 2 ^ 31) :
    int32 ((sum : Int).tdiv (if (count : Int) ≠ 0 then (count : Int) else -1)) = (sum / count : Nat) := by
  have smaller : sum / count ≤ sum := Nat.div_le_self _ _
  rw [if_pos (Nat.cast_ne_zero.mpr nonzero), ← Int.ofNat_tdiv]
  generalize sum / count = quotient at smaller ⊢
  exact int32_of_bounds (by omega) (by omega)

/-- In every round the differences are what the workers added since the round
before, modulo 2^32, and so are the quotients where the amounts fit in an `int`.
No addition is lost or counted twice: the amounts of the rounds, and of the one
under way, make up what has been read. -/
theorem rounds_exact (reached : (system ndn server).Reachable state) :
    (∀ round ∈ state.rounds,
      (∀ counter, round.differences counter ≡ total round.amounts counter [ZMOD 2 ^ 32] ∧
        (total round.amounts counter < 2 ^ 31 → round.differences counter = total round.amounts counter)) ∧
      (total round.amounts .packetCount ≠ 0 → total round.amounts .packetCount < 2 ^ 31 →
        (total round.amounts .qtime < 2 ^ 31 →
          round.report.qtime = (total round.amounts .qtime / total round.amounts .packetCount : Nat)) ∧
        (total round.amounts .ptime < 2 ^ 31 →
          round.report.ptime = (total round.amounts .ptime / total round.amounts .packetCount : Nat)))) ∧
    ∀ thread counter, state.seen thread counter <+: state.made thread counter ∧
      (state.rounds.map (·.amounts thread counter)).flatten ++
        (state.seen thread counter).drop (state.base thread counter).length = state.seen thread counter ∧
      ((∀ left, state.display ≠ .read left) → state.base thread counter = state.seen thread counter) := by
  have counted := counted_inductive.reachable reached
  refine ⟨fun round member => ⟨fun counter => ?_, fun nonzero fits => ?_⟩,
    fun thread counter => ⟨?_, ?_, fun idle => ?_⟩⟩
  · exact ⟨(counted.sound round member).modEq counter, (counted.sound round member).exact⟩
  · have sound := counted.sound round member
    rw [sound.2]
    constructor
    · intro sum
      simp only [report, sound.exact fits, sound.exact sum]
      exact quotient_exact nonzero sum
    · intro sum
      simp only [report, sound.exact fits, sound.exact sum]
      exact quotient_exact nonzero sum
  · exact counted.seen thread counter
  · obtain ⟨rest, whole⟩ := counted.base thread counter
    rw [counted.reported, ← whole, List.drop_left]
  · have displays := counted.displays
    cases here : state.display with
    | test =>
        rw [here] at displays
        exact congrFun (congrFun displays.1 thread) counter
    | read left => exact (idle left here).elim
    | exited =>
        rw [here] at displays
        exact congrFun (congrFun displays thread) counter

/-- One benchmark Interest that waits in the queue for a while, and a report. -/
def sampleRound (wait : Nat) : List (Label 1) :=
  .onInterest (Server.sampleName [.generic (ascii "benchmark")]) ::
    [0, 0, wait, 0, 0, 0].map (.worker 0 0 (fun _ => none)) ++ List.replicate 6 .display

def sampleStart : State 1 := .initial fun _ => []

theorem rounds_exact_sample :
    ∃ state, (system .reference (Server.sampleServer 4)).run sampleStart (sampleRound 7) = some state ∧
      ∃ round ∈ state.rounds, round.report.qtime = 7 := by
  have ran : ∃ state round, (system .reference (Server.sampleServer 4)).run sampleStart (sampleRound 7) = some state ∧
      state.rounds = [round] ∧ total round.amounts .packetCount = 1 ∧ total round.amounts .qtime = 7 :=
    ⟨_, _, rfl, rfl, by decide, by decide⟩
  obtain ⟨state, round, ran, rounds, packets, waited⟩ := ran
  have begun : (system .reference (Server.sampleServer 4)).Reachable sampleStart := .start ⟨_, rfl⟩
  have member : round ∈ state.rounds := rounds ▸ List.mem_singleton_self round
  have quotients := ((rounds_exact (begun.run ran)).1 round member).2 (by omega) (by omega)
  refine ⟨state, ran, round, member, ?_⟩
  rw [quotients.1 (by omega), waited, packets]
  rfl

/-- A wait of 2^31 microseconds is printed as a negative one. -/
theorem rounds_wrapped :
    ∃ state round, (system .reference (Server.sampleServer 4)).run sampleStart (sampleRound (2 ^ 31)) = some state ∧
      round ∈ state.rounds ∧ total round.amounts .packetCount = 1 ∧ total round.amounts .qtime = 2 ^ 31 ∧
        round.report.qtime = -2 ^ 31 :=
  ⟨_, _, rfl, List.mem_singleton_self _, by decide, by decide, by decide⟩

end Threads

end Ndnperf.Cxx

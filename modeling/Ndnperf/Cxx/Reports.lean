import Mathlib.Data.List.DropRight
import Ndnperf.Cxx.Interests
import Ndnperf.Cxx.Threads

namespace Ndnperf.Cxx.Client

open Ndn Library.Word Library.Transition

variable {ndn : NdnCxx} {client : Client} {opens : Bool} {state before after : State} {event : Event}
  {past events : List Event} {pending : Pending} {now : Int}

/-! ## What happened since the last report -/

def Event.isTimer : Event → Bool
  | .timer => true
  | .data .. | .nack .. | .timeout _ => false

/-- The events after the last time the timer fired. -/
def sinceTimer (events : List Event) : List Event := events.rtakeWhile (!·.isTimer)

/-- The round-trip time that a Data of the benchmark adds. -/
def Event.sample : Event → Option Nat
  | .data pending _ now =>
      match pending.onData with
      | .onData start => some (now - start).toNat
      | .onDataFile _ => none
  | .nack .. | .timeout _ | .timer => none

def samples (events : List Event) : List Nat := (sinceTimer events).filterMap Event.sample

def Event.bytes : Event → Nat
  | .data _ packet _ => packet.content.length
  | .nack .. | .timeout _ | .timer => 0

def received (events : List Event) : Nat := ((sinceTimer events).map Event.bytes).sum

theorem sinceTimer_append (past : List Event) (event : Event) :
    sinceTimer (past ++ [event]) = if event.isTimer then [] else sinceTimer past ++ [event] := by
  rw [sinceTimer, List.rtakeWhile_concat]
  cases event.isTimer <;> rfl

theorem samples_append (other : event.isTimer = false) :
    samples (past ++ [event]) = samples past ++ event.sample.toList := by
  rw [samples, sinceTimer_append, other, if_neg Bool.false_ne_true, List.filterMap_append]
  cases same : event.sample <;> simp [samples, same]

theorem received_append (other : event.isTimer = false) : received (past ++ [event]) = received past + event.bytes := by
  rw [received, sinceTimer_append, other, if_neg Bool.false_ne_true, List.map_append, List.sum_append]
  rfl

theorem samples_timer (past : List Event) : samples (past ++ [.timer]) = [] := by
  rw [samples, sinceTimer_append]
  rfl

theorem received_timer (past : List Event) : received (past ++ [.timer]) = 0 := by
  rw [received, sinceTimer_append]
  rfl

/-! ## The benchmark -/

/-- The handlers of the benchmark, which carry the time the Interest was sent. -/
def Timed (pending : Pending) : Prop :=
  ∃ start retries, pending.onData = .onData start ∧ pending.onTimeout = .onTimeout retries start

/-- The accumulators hold the samples of the interval. -/
structure Benchmarking (past : List Event) (state : State) : Prop where
  mode : state.download = false
  timed : ∀ pending ∈ state.face, Timed pending
  rtt : state.rtt = (samples past).sum
  packets : state.pktCount = (samples past).length

theorem Benchmarking.express (benchmarking : Benchmarking past state) (timed : Timed pending) :
    Benchmarking past (state.express pending) :=
  { benchmarking with timed := List.forall_mem_append.mpr ⟨benchmarking.timed, List.forall_mem_singleton.mpr timed⟩ }

theorem Benchmarking.settle (benchmarking : Benchmarking past state) (pending : Pending) :
    Benchmarking past (state.settle pending) :=
  { benchmarking with timed := fun other kept => benchmarking.timed other (List.mem_of_mem_erase kept) }

theorem benchmarking_window (benchmarking : Benchmarking past state) (now : Int) (rounds : Nat) :
    Benchmarking past (client.expressWindow ndn now rounds state) := by
  induction rounds generalizing state with
  | zero => exact benchmarking
  | succ rounds ih =>
      apply ih
      simp only [expressNext, benchmarking.mode, Bool.false_eq_true, if_false]
      exact { benchmarking.express ⟨now, 5, rfl, rfl⟩ with }

theorem benchmarking_run (benchmark : client.filePath = []) (opens : Bool) (now : Int) :
    Benchmarking [] (client.run ndn opens now .initial) := by
  simp only [run, benchmark, List.isEmpty_nil, if_true]
  exact benchmarking_window ⟨rfl, by simp [State.initial], rfl, rfl⟩ now _

/-- An event that adds no sample. -/
theorem Benchmarking.silent (benchmarking : Benchmarking past state) (other : event.isTimer = false)
    (silent : event.sample = none) : Benchmarking (past ++ [event]) state := by
  have same : samples (past ++ [event]) = samples past := by
    rw [samples_append other, silent]
    exact List.append_nil _
  exact { benchmarking with rtt := same ▸ benchmarking.rtt, packets := same ▸ benchmarking.packets }

theorem Benchmarking.step (benchmarking : Benchmarking past before)
    (moved : client.step ndn before event = some after) :
    Benchmarking (past ++ [event]) after := by
  simp only [Client.step, Option.ite_none_right_eq_some] at moved
  obtain ⟨_, moved⟩ := moved
  cases event with
  | data pending data now =>
      simp only [Option.ite_none_right_eq_some, Option.some.injEq] at moved
      obtain ⟨⟨member, _⟩, rfl⟩ := moved
      obtain ⟨start, retries, handler, _⟩ := benchmarking.timed pending member
      have sampled : (Event.data pending data now).sample = some (now - start).toNat := by
        simp only [Event.sample, handler]
      have settled := benchmarking.settle pending
      simp only [handler, handleData, onData]
      refine Benchmarking.express { settled with rtt := ?_, packets := ?_ } ⟨now, 5, rfl, rfl⟩
      · rw [samples_append rfl, sampled, Option.toList_some, List.sum_append, List.sum_singleton]
        exact congrArg (· + _) settled.rtt
      · rw [samples_append rfl, sampled, Option.toList_some, List.length_append, List.length_singleton]
        exact congrArg (· + 1) settled.packets
  | nack pending now =>
      simp only [Option.ite_none_right_eq_some, Option.some.injEq] at moved
      obtain ⟨member, rfl⟩ := moved
      have settled : Benchmarking (past ++ [.nack pending now]) (before.settle pending) :=
        (benchmarking.settle pending).silent rfl rfl
      unfold onNack
      split
      · exact { settled with }
      · rw [if_neg (by simp [settled.mode])]
        exact settled.express ⟨now, 5, rfl, rfl⟩
  | timeout pending =>
      simp only [Option.ite_none_right_eq_some, Option.some.injEq] at moved
      obtain ⟨member, rfl⟩ := moved
      obtain ⟨start, retries, _, handler⟩ := benchmarking.timed pending member
      have settled : Benchmarking (past ++ [.timeout pending]) (before.settle pending) :=
        (benchmarking.settle pending).silent rfl rfl
      simp only [handler, handleTimeout, onTimeout]
      split
      · exact settled.express ⟨start, retries - 1, rfl, rfl⟩
      · exact { settled with }
  | timer =>
      simp only [benchmarking.mode, Bool.false_eq_true, if_false, Option.some.injEq] at moved
      subst moved
      exact { benchmarking with rtt := by rw [samples_timer]; rfl, packets := by rw [samples_timer]; rfl }

/-- The mean of the samples, the packets per second, and accumulators that start again. -/
structure MeanReport (samples : List Nat) (printed : Nat × Nat × Nat) (after : State) : Prop where
  latency : samples ≠ [] → printed.2.2 = samples.sum / samples.length
  packets : printed.2.1 = samples.length / 2
  rtt : after.rtt = 0
  payloadSize : after.payloadSize = 0
  pktCount : after.pktCount = 0

/-- The sum is divided by half the number of samples: the number that was
shifted for the packets per second just before. -/
theorem halved_mean_iff {sum count : Nat} (nonzero : count ≠ 0) :
    sum / (if count / 2 ≠ 0 then count / 2 else uint64 (-1)) = sum / count ↔ sum < max 1 (count / 2) := by
  split
  · rename_i several
    rw [max_eq_right (by omega)]
    generalize halved : count / 2 = half at several
    constructor
    · intro same
      by_contra large
      have positive : 0 < sum / half := Nat.div_pos (by omega) (by omega)
      have doubled : sum / half / 2 = sum / (half * 2) := Nat.div_div_eq_div_mul sum half 2
      have smaller : sum / count ≤ sum / (half * 2) := Nat.div_le_div_left (by omega) (by omega)
      omega
    · intro small
      rw [Nat.div_eq_of_lt small, Nat.div_eq_of_lt (by omega)]
  · have single : count = 1 := by omega
    have unsigned : uint64 (-1) = 18446744073709551615 := by decide
    rw [single, unsigned, max_eq_left (by decide)]
    omega

/-- Whatever Data, Nacks and timeouts come between two reports, the benchmark
prints the mean latency exactly if the samples add up to less than half their
number: it divides by the number it has just shifted. -/
theorem report_mean_iff (benchmark : client.filePath = [])
    (ran : (client.system ndn opens).run (client.run ndn opens now .initial) events = some state) :
    MeanReport (samples events) (display state).1 (display state).2 ↔
      samples events = [] ∨ (samples events).sum < max 1 ((samples events).length / 2) := by
  have benchmarking : Benchmarking ([] ++ events) state :=
    System.run_records (fun benchmarking moved => Benchmarking.step benchmarking moved)
      (benchmarking_run benchmark opens now) ran
  rw [List.nil_append] at benchmarking
  have printed : (display state).1.2.2 = (samples events).sum /
      (if (samples events).length / 2 ≠ 0 then (samples events).length / 2 else uint64 (-1)) := by
    simp only [display, benchmarking.rtt, benchmarking.packets]
  by_cases empty : samples events = []
  · refine iff_of_true ⟨fun some_sample => (some_sample empty).elim, ?_, rfl, rfl, rfl⟩ (.inl empty)
    simp only [display, benchmarking.packets]
  · have mean := @halved_mean_iff (samples events).sum _ (mt List.length_eq_zero_iff.mp empty)
    rw [← printed] at mean
    simp only [empty, false_or, ← mean]
    constructor
    · intro report
      exact report.latency empty
    · intro same
      refine ⟨fun _ => same, ?_, rfl, rfl, rfl⟩
      simp only [display, benchmarking.packets]

def benchmarkClient : Client := { sampleClient with filePath := [] }

/-- An Interest of the first window, sent at time zero, and its Data. -/
def benchmarkAnswer (index : Nat) (now : Int) : Event :=
  let name := benchmarkClient.baseName .reference false ++ [Reference.fromSegment index]
  .data (benchmarkInterest name 0 5) { name, freshnessPeriod := 0, content := [], finalBlock := none } now

theorem report_mean_sample :
    ∃ state, (benchmarkClient.system .reference true).run (benchmarkClient.run .reference true 0 .initial)
        [benchmarkAnswer 0 0] = some state ∧
      MeanReport (samples [benchmarkAnswer 0 0]) (display state).1 (display state).2 := by
  have mean := fun state => @report_mean_iff .reference benchmarkClient true state [benchmarkAnswer 0 0] 0 rfl
  exact ⟨_, rfl, (mean _ rfl).mpr (.inr (by decide))⟩

/-- Two packets of ten microseconds each are reported as twenty. -/
theorem report_mean_doubled :
    ∃ state, (benchmarkClient.system .reference true).run (benchmarkClient.run .reference true 0 .initial)
        [benchmarkAnswer 0 10, benchmarkAnswer 1 10] = some state ∧
      samples [benchmarkAnswer 0 10, benchmarkAnswer 1 10] = [10, 10] ∧ (display state).1.2.2 = 20 :=
  ⟨_, rfl, by decide, by decide⟩

/-! ## The download -/

/-- The index of the last segment in order and the bytes of the interval, while the client runs. -/
structure Receiving (ndn : NdnCxx) (client : Client) (past : List Event) (state : State) : Prop where
  downloading : Downloading ndn client state
  bytes : state.status = .running → state.payloadSize = received past
  current : state.status = .running → state.currentSegment ≤ state.maxSegment
  last : state.maxSegment < 2 ^ 64

theorem receiving_run (chosen : client.filePath ≠ []) (opens : Bool) (now : Int) :
    Receiving ndn client [] (client.run ndn opens now .initial) := by
  have downloading := @downloading_run ndn client chosen opens now
  rw [run_eq chosen] at downloading ⊢
  exact ⟨downloading, fun _ => rfl, fun _ => Nat.le_refl _, Nat.two_pow_pos 64⟩

theorem Receiving.moves (receiving : Receiving ndn client past before)
    (decodes : ∀ component segment, ndn.toSegment component = some segment → segment < 2 ^ 64)
    (running : before.status = .running) (moved : Moves ndn client before event after) :
    Receiving ndn client (past ++ [event]) after := by
  have downloading := receiving.downloading.moves moved
  have bytes := receiving.bytes running
  have current := receiving.current running
  cases moved with
  | @received pending data now index segment member asks named handler =>
      have more : received (past ++ [.data pending data now]) = received past + data.content.length :=
        received_append rfl
      obtain faulted | ⟨maxSegment, currentSegment, file, pendingSegments, final, ⟨_, completed⟩ |
          ⟨within, _, further⟩ | ⟨within, _, done⟩⟩ := onDataFile_cases named segment (before.settle pending)
      · rw [faulted] at downloading ⊢
        exact ⟨downloading, by simp, by simp, receiving.last⟩
      all_goals
        obtain ⟨component, _, decoded⟩ := Option.bind_eq_some_iff.mp final
        have last := decodes component maxSegment decoded
      · rw [completed] at downloading ⊢
        exact ⟨downloading, by simp, by simp, last⟩
      · rw [further] at downloading ⊢
        exact ⟨downloading, fun _ => more ▸ congrArg (· + _) bytes, fun _ => within, last⟩
      · rw [done] at downloading ⊢
        exact ⟨downloading, fun _ => more ▸ congrArg (· + _) bytes, fun _ => within, last⟩
  | refused member status stops | abandoned member status stops =>
      exact ⟨downloading, fun running => (stops running).elim, fun running => (stops running).elim, receiving.last⟩
  | nacked | retried =>
      refine ⟨downloading, fun _ => ?_, fun _ => current, receiving.last⟩
      rw [received_append (by rfl)]
      exact bytes
  | shown => exact ⟨downloading, fun _ => (received_timer past).symm, fun _ => current, receiving.last⟩

/-- The progress and the throughput, as the two other reports compute it. -/
structure FileReport (state : State) (bytes : Nat) (printed : Nat × Nat × Nat) : Prop where
  index : (printed.1 : Int) = state.currentSegment - 1
  within : printed.1 ≤ state.maxSegment
  rate : printed.2.2 = 8 * bytes / (1024 * 2)
  benchmark : printed.2.2 = (display { state with payloadSize := bytes }).1.1
  server : ∀ differences : Counter → Int, differences .payloadSum = bytes →
    (Threads.report differences).payload = printed.2.2

/-- In whatever order Data, Nacks and timeouts come, a report of the download is
right exactly if the first segment has been written and less than 64 bytes have
come since the last report: the shift is by six places, not by eight. -/
theorem file_report_iff (decodes : ∀ component segment, ndn.toSegment component = some segment → segment < 2 ^ 64)
    (chosen : client.filePath ≠ [])
    (ran : (client.system ndn opens).run (client.run ndn opens now .initial) events = some state)
    (running : state.status = .running) :
    FileReport state (received events) (displayFile state).1 ↔ 1 ≤ state.currentSegment ∧ received events < 64 := by
  have receiving : Receiving ndn client ([] ++ events) state :=
    System.run_records (fun receiving moved => by
      obtain ⟨running, moves⟩ := moves_of_step receiving.downloading moved
      exact receiving.moves decodes running moves) (receiving_run chosen opens now) ran
  rw [List.nil_append] at receiving
  have bytes := receiving.bytes running
  have current := receiving.current running
  have last := receiving.last
  generalize received events = count at bytes ⊢
  constructor
  · intro report
    have index := report.index
    have rate := report.rate
    simp only [displayFile, bytes] at index rate
    omega
  · intro condition
    obtain ⟨written, few⟩ := condition
    have printed : (displayFile state).1.1 = state.currentSegment - 1 := by
      change uint64 (state.currentSegment - 1) = _
      rw [uint64_of_bounds (by omega) (by omega)]
      omega
    refine ⟨by omega, by omega, ?_, ?_, fun differences counted => ?_⟩
    · simp only [displayFile, bytes]
      omega
    · simp only [displayFile, display, bytes]
      omega
    · simp only [displayFile, Threads.report, bytes, counted]
      omega

/-- Segment 0 of a file of two, with a given number of bytes. -/
def firstAnswer (count : Nat) : Event :=
  let name := sampleClient.segmentName .reference 0
  .data (sampleClient.request .reference 0 5)
    { name, freshnessPeriod := 0, content := List.replicate count 65, finalBlock := some (Reference.fromSegment 1) } 0

theorem file_report_sample :
    ∃ state, (sampleClient.system .reference true).run (sampleClient.run .reference true 0 .initial)
      [firstAnswer 4] = some state ∧ FileReport state 4 (displayFile state).1 := by
  have right := fun state => @file_report_iff .reference sampleClient true state [firstAnswer 4] 0
    (fun _ _ => Reference.toSegment_lt) (by decide)
  exact ⟨_, rfl, (right _ rfl rfl).mpr (by decide)⟩

/-- Before anything is written the index wraps, and 64 bytes are shown as one
kilobit per second, where the other reports show none. -/
theorem file_report_wrong :
    (displayFile (sampleClient.run .reference true 0 .initial)).1.1 = 2 ^ 64 - 1 ∧
      ∃ state, (sampleClient.system .reference true).run (sampleClient.run .reference true 0 .initial)
        [firstAnswer 64] = some state ∧ received [firstAnswer 64] = 64 ∧ (displayFile state).1.2.2 = 1 ∧
          (display { state with payloadSize := 64 }).1.1 = 0 :=
  ⟨by decide, _, rfl, by decide, by decide, by decide⟩

end Ndnperf.Cxx.Client

import Ndnperf.Library.Tokens
import Ndnperf.Java.NameLayout

namespace Ndnperf.Java

open Ndn Library.Tokens Library.Transition List

/-! The names that a benchmark asks for: `Main` takes the numbers from 1 up to
the window, and `nextBenchmarkInterest` those from the window on. -/

variable {jndn : Jndn} {component : Text → Option Component} {client : Client}

/-! ## Numbers in names -/

theorem decimal_nat (number : Nat) : decimal number = Nat.toDigits 10 number := by
  have unsigned : ¬((number : Int) < 0) := by omega
  rw [decimal, if_neg unsigned, Int.natAbs_natCast]

theorem decimal_injective {left right : Nat} (same : decimal left = decimal right) : left = right := by
  rw [decimal_nat, decimal_nat] at same
  have parsed := parseDigits_toDigits left
  rw [same, parseDigits_toDigits] at parsed
  exact (Option.some.inj parsed).symm

namespace Uris

theorem decimal_read (uris : Uris jndn component) (number : Nat) :
    ∃ made, component (decimal number) = some made ∧ jndn.toEscapedString made = decimal number := by
  rw [decimal_nat]
  refine uris.plain _ Nat.toDigits_ne_nil (all_eq_true.mpr fun letter member => ?_)
  simp [Char.isAlphanum, isDigit_of_mem member]

/-- However the prefix is read, the number is the last component. -/
theorem benchmarkName_last (uris : Uris jndn component) (client : Client) (number : Nat) :
    ∃ made, jndn.toEscapedString made = decimal number ∧
      (Client.benchmarkName jndn client number).getLast? = some made := by
  obtain ⟨made, read, same⟩ := uris.decimal_read number
  obtain ⟨word, _, rooted, empty⟩ := uris.benchmarkName client number
  refine ⟨made, same, ?_⟩
  rw [read] at rooted empty
  by_cases none : jndn.nameOfUri client.namePrefix = []
  · obtain named | named := empty none <;> simp [named]
  · simp [rooted none]

theorem benchmarkName_injective (uris : Uris jndn component) (client : Client) {left right : Nat}
    (same : Client.benchmarkName jndn client left = Client.benchmarkName jndn client right) : left = right := by
  obtain ⟨first, written, last⟩ := uris.benchmarkName_last client left
  obtain ⟨second, rewritten, final⟩ := uris.benchmarkName_last client right
  rw [same, final, Option.some.injEq] at last
  exact decimal_injective (written.symm.trans (last ▸ rewritten))

/-- The name of a benchmark is not taken for that of a file's count. -/
theorem benchmarkName_uncounted (uris : Uris jndn component) (client : Client) (number : Nat) {target : Client.Target}
    (named : target.name = Client.benchmarkName jndn client number) :
    jndn.toEscapedString target.selector ≠ "download".toList := by
  obtain ⟨digits, read, _⟩ := uris.decimal_read number
  obtain ⟨made, same, rooted, empty⟩ := uris.benchmarkName client number
  rw [read] at rooted empty
  rcases parsed : jndn.nameOfUri client.namePrefix with _ | ⟨first, _ | ⟨second, rest⟩⟩
  · obtain shape | shape := empty parsed
    · simpa [Client.Target.name] using congrArg length (named.trans shape)
    · simpa [Client.Target.name] using congrArg length (named.trans shape)
  · have shape := named.trans (rooted (by simp [parsed]))
    rw [parsed] at shape
    obtain ⟨_, selector, _⟩ : target.namePrefix = first ∧ target.selector = made ∧ target.file = digits := by
      simpa [Client.Target.name] using shape
    rw [selector, same]
    decide
  · have shape := named.trans (rooted (by simp [parsed]))
    rw [parsed] at shape
    simpa [Client.Target.name] using congrArg length shape

end Uris

namespace Client

variable {state before after : State} {event : Event} {past events : List Event} {name : Name}

/-! ## The names of a run -/

/-- The name that a step takes from the counter of the benchmark. -/
def built (jndn : Jndn) (client : Client) (before : State) : Event → List Name
  | .data name _ _ =>
      if jndn.toUri name ∈ before.pendingInterests ∧ name[1]?.map jndn.toEscapedString = some "benchmark".toList then
        [benchmarkName jndn client before.next]
      else []
  | .timeout _ _ => []
  | .main _ => []
  | .fileManager => []

def generated (jndn : Jndn) (client : Client) (before : State) : List Event → List Name
  | [] => []
  | event :: rest =>
      built jndn client before event ++
        match client.step jndn before event with
        | some after => generated jndn client after rest
        | none => []

/-- A Data that `onData` passes to `nextBenchmarkInterest`. -/
def Continues (jndn : Jndn) (state : State) (event : Event) : Prop :=
  ∃ name ∈ event.answers, jndn.toUri name ∈ state.pendingInterests ∧
    name[1]?.map jndn.toEscapedString = some "benchmark".toList

instance : Decidable (Continues jndn state event) :=
  match event with
  | .data name _ _ =>
      decidable_of_iff (jndn.toUri name ∈ state.pendingInterests ∧
        name[1]?.map jndn.toEscapedString = some "benchmark".toList) (by simp [Continues, Event.answers])
  | .timeout _ _ => .isFalse fun continues => by simp [Continues, Event.answers] at continues
  | .main _ => .isFalse fun continues => by simp [Continues, Event.answers] at continues
  | .fileManager => .isFalse fun continues => by simp [Continues, Event.answers] at continues

/-- The names of the first batch and those of the counter are all different, and
no two outstanding Interests have one name, nor one that a Data has answered. -/
structure NeverReused (jndn : Jndn) (client : Client) (events : List Event) (state : State) : Prop where
  distinct : (client.interests jndn ++ generated jndn client (.initial jndn client) events).Nodup
  outstanding : state.face.Nodup
  unanswered : ∀ event ∈ events, ∀ name ∈ event.answers, name ∉ state.face

/-! ## Steps without a Data -/

/-- No name comes into the queue and the face, and no Data starts to be handled. -/
structure Quiet (before after : State) : Prop where
  fewer : after.iQueue ++ after.face <+~ before.iQueue ++ before.face
  next : after.next = before.next
  handled : after.main.handled = none ∨ after.main.handled = before.main.handled
  opened : after.pendingFile.isSome = before.pendingFile.isSome

theorem Quiet.timeout {throwsAt : Option Failure}
    (moved : client.step jndn before (.timeout name throwsAt) = some after) :
    Quiet before after := by
  have sends := step_sends moved
  obtain ⟨_, _, member, rfl⟩ := Client.step_timeout.mp moved
  obtain ⟨face, retryTable, pendingInterests, cont, same⟩ := @onTimeout_frame jndn name throwsAt (before.settle name)
  have resent : calls jndn client before (.timeout name throwsAt) <+ [name] := by
    simp only [calls]
    split
    · exact Sublist.refl _
    · exact nil_sublist _
  have returned : face <+~ before.face := by
    have sent : face = before.face.erase name ++ passed throwsAt
        (calls jndn client before (.timeout name throwsAt)) := by
      rw [same] at sends
      exact sends.face
    rw [sent]
    refine ((((passed_sublist _ _).trans resent).append_left _).subperm).trans (Perm.subperm ?_)
    exact perm_append_comm.trans (perm_cons_erase member).symm
  rw [same]
  exact ⟨(subperm_append_left _).mpr returned, rfl, .inr rfl, rfl⟩

theorem Quiet.main {throwsAt : Option Failure} (moved : client.step jndn before (.main throwsAt) = some after)
    (elsewhere : ∀ name, before.main ≠ .request name) : Quiet before after := by
  have sends := step_sends moved
  obtain ⟨name, rest, face, pendingInterests, queued, called, rfl⟩ | ⟨name, here, _⟩ | ⟨_, main, filePass, _,
      idle, rfl⟩ :=
    @mainStep_cases jndn client before after throwsAt (step_main.mp moved).2
  · have sent : face = before.face ++ passed throwsAt [name] := called ▸ sends.face
    have polled : rest ++ face <+~ before.iQueue ++ before.face := by
      rw [sent, queued]
      refine ((((passed_sublist throwsAt [name]).append_left _).append_left rest).subperm).trans (Perm.subperm ?_)
      rw [← append_assoc]
      exact perm_append_comm
    exact ⟨polled, rfl, .inl rfl, rfl⟩
  · exact absurd here (elsewhere name)
  · exact ⟨Subperm.refl _, rfl, idle, rfl⟩

theorem Quiet.fileManager (moved : client.step jndn before .fileManager = some after) : Quiet before after := by
  obtain ⟨_, moved⟩ := step_fileManager.mp moved
  have opened := fileManagerStep_isSome moved
  obtain ⟨fileManager, pendingFile, filePass, cont, written, rfl⟩ := fileManagerStep_frame moved
  exact ⟨Subperm.refl _, rfl, .inr rfl, opened⟩

theorem quiet_step (moved : client.step jndn before event = some after) (silent : event.answers = none)
    (elsewhere : ∀ name, before.main ≠ .request name) : Quiet before after := by
  cases event with
  | data => simp [Event.answers] at silent
  | timeout name throwsAt => exact .timeout moved
  | main throwsAt => exact .main moved elsewhere
  | fileManager => exact .fileManager moved

/-! ## Before the counter is used -/

/-- The first batch is in the queue or on the face, each name once and none that
has been answered. -/
structure Untouched (jndn : Jndn) (client : Client) (past : List Event) (state : State) : Prop where
  counter : state.next = client.window
  distinct : (state.iQueue ++ state.face).Nodup
  named : ∀ name ∈ state.iQueue ++ state.face, ∃ number : Nat, name = benchmarkName jndn client number
  unanswered : ∀ event ∈ past, ∀ name ∈ event.answers, name ∉ state.iQueue ++ state.face
  idle : state.main.handled = none
  absent : state.pendingFile.isSome = false

theorem interests_benchmark (benchmark : client.fileName = none) :
    client.interests jndn =
      (range' 1 client.window.toNat).map fun number : Nat => benchmarkName jndn client number := by
  simp only [interests, benchmark, bind_eq_flatMap, pure_def, ← map_eq_flatMap, map_map]
  rfl

theorem untouched_initial (uris : Uris jndn component) (benchmark : client.fileName = none) :
    Untouched jndn client [] (.initial jndn client) := by
  have batch : (State.initial jndn client).iQueue ++ (State.initial jndn client).face =
      (range' 1 client.window.toNat).map fun number : Nat => benchmarkName jndn client number :=
    (append_nil _).trans (interests_benchmark benchmark)
  refine ⟨rfl, ?_, ?_, by simp, rfl, rfl⟩
  · rw [batch]
    exact Nodup.map (fun left right same => uris.benchmarkName_injective client same) nodup_range'
  · intro name member
    rw [batch] at member
    obtain ⟨number, _, rfl⟩ := mem_map.mp member
    exact ⟨number, rfl⟩

/-- A step that brings no name into the queue and the face. -/
theorem Untouched.fewer (untouched : Untouched jndn client past before)
    (counter : after.next = before.next) (fewer : after.iQueue ++ after.face <+~ before.iQueue ++ before.face)
    (gone : ∀ name ∈ event.answers, name ∉ after.iQueue ++ after.face) (idle : after.main.handled = none)
    (absent : after.pendingFile.isSome = before.pendingFile.isSome) :
    Untouched jndn client (past ++ [event]) after where
  counter := counter.trans untouched.counter
  distinct := nodup_of_subperm fewer untouched.distinct
  named name member := untouched.named name (fewer.subset member)
  unanswered := by
    refine forall_mem_append.mpr ⟨fun earlier member name answered again => ?_, forall_mem_singleton.mpr gone⟩
    exact untouched.unanswered earlier member name answered (fewer.subset again)
  idle
  absent := absent.trans untouched.absent

/-- Such a Data leaves only the table and the count of a file behind. -/
theorem Untouched.answered (untouched : Untouched jndn client past before) (uris : Uris jndn component)
    (member : name ∈ before.face) {content : Bytes} {throwsAt : Option Failure}
    (apart : ¬Continues jndn before (.data name content throwsAt)) :
    ∃ retryTable max cont, client.onData jndn name content throwsAt (before.settle name) =
      { before.settle name with retryTable, max, cont } := by
  by_cases other : name[1]?.map jndn.toEscapedString = some "benchmark".toList
  · have unknown : jndn.toUri name ∉ (before.settle name).pendingInterests := fun known =>
      apart ⟨name, rfl, known, other⟩
    exact ⟨_, _, _, if_neg unknown⟩
  · obtain ⟨number, numbered⟩ := untouched.named name (mem_append_right _ member)
    obtain ⟨target, _, named, selected, _⟩ | ⟨_, retryTable, max, cont, _, same⟩ :=
      @onData_cases jndn client (before.settle name) name other untouched.absent content throwsAt
    · exact absurd selected (uris.benchmarkName_uncounted client number (named.trans numbered))
    · exact ⟨retryTable, max, cont, same⟩

theorem Untouched.data (untouched : Untouched jndn client past before) (uris : Uris jndn component) {content : Bytes}
    {throwsAt : Option Failure} (moved : client.step jndn before (.data name content throwsAt) = some after)
    (apart : ¬Continues jndn before (.data name content throwsAt)) :
    Untouched jndn client (past ++ [.data name content throwsAt]) after := by
  obtain ⟨_, _, member, rfl⟩ := Client.step_data.mp moved
  obtain ⟨retryTable, max, cont, same⟩ := untouched.answered uris member apart
  have erased : before.iQueue ++ before.face.erase name <+ before.iQueue ++ before.face :=
    (erase_sublist).append_left _
  rw [same]
  refine untouched.fewer rfl erased.subperm (fun answered answers again => ?_) untouched.idle rfl
  obtain rfl : name = answered := by simpa [Event.answers] using answers
  obtain ⟨_, once, disjoint⟩ := nodup_append'.mp untouched.distinct
  obtain queued | sent := mem_append.mp again
  · exact disjoint queued member
  · exact once.not_mem_erase sent

theorem Untouched.step (untouched : Untouched jndn client past before) (uris : Uris jndn component)
    (moved : client.step jndn before event = some after) (apart : ¬Continues jndn before event) :
    Untouched jndn client (past ++ [event]) after := by
  cases answers : event.answers with
  | none =>
      have elsewhere : ∀ name, before.main ≠ .request name := by
        intro name here
        have idle := untouched.idle
        simp [here, MainPc.handled] at idle
      have quiet := quiet_step moved answers elsewhere
      exact untouched.fewer quiet.next quiet.fewer (by simp [answers])
        (quiet.handled.elim id fun same => same.trans untouched.idle) quiet.opened
  | some name =>
      cases event with
      | data other content throwsAt => exact untouched.data uris moved apart
      | timeout | main | fileManager => simp [Event.answers] at answers

/-! ## Every run -/

theorem built_apart (apart : ¬Continues jndn before event) : built jndn client before event = [] := by
  cases event with
  | data name content throwsAt => exact if_neg fun both => apart ⟨name, rfl, both⟩
  | timeout | main | fileManager => rfl

/-- As long as `nextBenchmarkInterest` is not called, nothing is built. -/
theorem generated_apart
    (apart : (client.system jndn).Along (fun state event => ¬Continues jndn state event) before events)
    (ran : (client.system jndn).run before events = some after) : generated jndn client before events = [] := by
  induction events generalizing before with
  | nil => rfl
  | cons event rest ih =>
      obtain ⟨middle, moved, remaining⟩ := System.run_cons.mp ran
      obtain ⟨first, others⟩ := apart middle moved
      change client.step jndn before event = some middle at moved
      simp only [generated, built_apart first, nil_append, moved, ih others remaining]

/-- The first call builds the last name of the first batch. -/
theorem Untouched.generates (untouched : Untouched jndn client past before) (uris : Uris jndn component)
    (ran : (client.system jndn).run before events = some after)
    (continues : ¬(client.system jndn).Along (fun state event => ¬Continues jndn state event) before events) :
    benchmarkName jndn client client.window ∈ generated jndn client before events := by
  induction events generalizing past before with
  | nil => exact absurd trivial continues
  | cons event rest ih =>
      obtain ⟨middle, moved, remaining⟩ := System.run_cons.mp ran
      have further : Continues jndn before event ∨
          ¬(client.system jndn).Along (fun state event => ¬Continues jndn state event) middle rest := by
        by_contra neither
        obtain ⟨first, others⟩ := not_or.mp neither
        refine continues fun next stepped => ?_
        obtain rfl := Option.some.inj (moved.symm.trans stepped)
        exact ⟨first, not_not.mp others⟩
      change client.step jndn before event = some middle at moved
      simp only [generated, moved]
      by_cases first : Continues jndn before event
      · obtain ⟨name, answers, known, selected⟩ := first
        refine mem_append_left _ ?_
        cases event with
        | data other content throwsAt =>
            obtain rfl : other = name := by simpa [Event.answers] using answers
            simp only [built, known, selected, and_self, if_true, untouched.counter, mem_singleton]
        | timeout | main | fileManager => simp [Event.answers] at answers
      · exact mem_append_right _ (ih (untouched.step uris moved first) remaining (further.resolve_left first))

/-- A benchmark never asks for a name twice exactly if no Data makes it ask again. -/
theorem never_reused_iff (uris : Uris jndn component) (benchmark : client.fileName = none) (opening : 1 ≤ client.window)
    (ran : (client.system jndn).run (.initial jndn client) events = some state) :
    NeverReused jndn client events state ↔
      (client.system jndn).Along (fun state event => ¬Continues jndn state event) (.initial jndn client) events := by
  have initial := untouched_initial uris benchmark
  constructor
  · intro unused
    by_contra continues
    have again := initial.generates uris ran continues
    have asked : benchmarkName jndn client client.window ∈ client.interests jndn := by
      rw [interests_benchmark benchmark, mem_map]
      refine ⟨client.window.toNat, mem_range'_1.mpr ⟨by omega, by omega⟩, ?_⟩
      rw [Int.toNat_of_nonneg (by omega)]
    exact (nodup_append'.mp unused.distinct).2.2 asked again
  · intro apart
    have held : Untouched jndn client ([] ++ events) state :=
      apart.records (fun untouched apart moved => Untouched.step untouched uris moved apart) initial ran
    refine ⟨?_, (nodup_append'.mp held.distinct).2.1, fun event member name answered again => ?_⟩
    · rw [generated_apart apart ran, append_nil]
      have start : (client.interests jndn ++ []).Nodup := initial.distinct
      rwa [append_nil] at start
    · exact held.unanswered event member name answered (mem_append_right _ again)

/-- The three steps that send the only Interest, and its timeout. -/
theorem never_reused_sample :
    ∃ state, (sampleBenchmark.system sampleJndn).run (.initial sampleJndn sampleBenchmark)
        [.main none, .main none, .main none, .timeout (benchmarkName sampleJndn sampleBenchmark 1) none] = some state ∧
      NeverReused sampleJndn sampleBenchmark
        [.main none, .main none, .main none, .timeout (benchmarkName sampleJndn sampleBenchmark 1) none] state := by
  have runs : ((sampleBenchmark.system sampleJndn).run (.initial sampleJndn sampleBenchmark)
      [.main none, .main none, .main none, .timeout (benchmarkName sampleJndn sampleBenchmark 1) none]).isSome := by
    decide +kernel
  obtain ⟨state, ran⟩ := Option.isSome_iff_exists.mp runs
  exact ⟨state, ran, (never_reused_iff uris_sample rfl (by decide) ran).mpr (by decide +kernel)⟩

def sampleAnswer : List Event :=
  replicate 3 (.main none) ++ [.data (benchmarkName sampleJndn sampleBenchmark 1) [] none]

/-- With a window of one, the first Data is answered with an Interest for the same name. -/
theorem answered_name_reused :
    ∃ state, (sampleBenchmark.system sampleJndn).run (.initial sampleJndn sampleBenchmark) sampleAnswer = some state ∧
      generated sampleJndn sampleBenchmark (.initial sampleJndn sampleBenchmark) sampleAnswer =
        sampleBenchmark.interests sampleJndn ∧
      state.face = [benchmarkName sampleJndn sampleBenchmark 1] ∧
      ¬NeverReused sampleJndn sampleBenchmark sampleAnswer state := by
  have sent : ((sampleBenchmark.system sampleJndn).run (.initial sampleJndn sampleBenchmark) sampleAnswer).map
      State.face = some [benchmarkName sampleJndn sampleBenchmark 1] := by decide +kernel
  obtain ⟨state, ran, face⟩ := Option.map_eq_some_iff.mp sent
  refine ⟨state, ran, by decide +kernel, face, fun unused => ?_⟩
  have answered : Event.data (benchmarkName sampleJndn sampleBenchmark 1) [] none ∈ sampleAnswer := by
    simp [sampleAnswer]
  exact unused.unanswered _ answered _ rfl (face ▸ mem_cons_self)

end Client

end Ndnperf.Java

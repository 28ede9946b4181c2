import Ndnperf.Cxx.Reports

namespace Ndnperf.Cxx.Client

open Ndn Library.Transition

/-! The window of the benchmark: `run` numbers the first names with segment
components, and `onData` goes on with decimal text. -/

variable {ndn : NdnCxx} {client : Client} {opens : Bool} {state before after : State} {event : Event}
  {past events : List Event} {pending : Pending} {now : Int}

/-! ## Decimal text -/

theorem digit_byte {value : Nat} {digit : Char} (member : digit ∈ Nat.toDigits 10 value) :
    (UInt8.ofNat digit.toNat).toNat = digit.toNat ∧ unreserved (UInt8.ofNat digit.toNat) ∧
      UInt8.ofNat digit.toNat ≠ period := by
  have decimal : digit.isDigit := Nat.isDigit_of_mem_toDigits (by decide) (by decide) member
  have table : ∀ code : Fin 128, (Char.ofNat code).isDigit →
      (UInt8.ofNat code).toNat = code ∧ unreserved (UInt8.ofNat code) ∧ UInt8.ofNat code ≠ period := by decide +kernel
  have ascii : digit.toNat < 128 := by
    simp only [Char.isDigit, Bool.and_eq_true, decide_eq_true_eq, UInt32.le_iff_toNat_le] at decimal
    change digit.val.toNat < 128
    exact Nat.lt_of_le_of_lt decimal.2 (by decide)
  have found := table ⟨digit.toNat, ascii⟩
  simp only [Char.ofNat_toNat] at found
  exact found decimal

theorem plain_toString (value : Nat) : Plain (toString value) := by
  have first : ∃ digit, digit ∈ Nat.toDigits 10 value := List.exists_mem_of_ne_nil _ Nat.toDigits_ne_nil
  obtain ⟨digit, member⟩ := first
  refine plain_iff.mpr ⟨fun byte listed => ?_, UInt8.ofNat digit.toNat, List.mem_map_of_mem member,
    (digit_byte member).2.2⟩
  obtain ⟨other, inside, rfl⟩ := List.mem_map.mp listed
  exact (digit_byte inside).2.1

theorem toString_injective {left right : Nat} (same : toString left = toString right) : left = right := by
  have decoded : ∀ value, (toString value).map (fun byte => Char.ofNat byte.toNat) = Nat.toDigits 10 value := by
    intro value
    rw [toString, List.map_map]
    refine (List.map_congr_left fun digit member => ?_).trans (List.map_id _)
    simp [(digit_byte member).1]
  have digits : Nat.toDigits 10 left = Nat.toDigits 10 right := by
    rw [← decoded left, ← decoded right, same]
  have value := congrArg (fun text => Nat.ofDigitChars 10 text 0) digits
  simpa only [Nat.ofDigitChars_ten_toDigits] using value

/-! ## Numbered names -/

/-- The name for a number: one of the first window, or a later one. -/
def numbered (ndn : NdnCxx) (client : Client) (number : Nat) : Name :=
  client.namePrefix ++ ndn.nameOfUri (ascii "benchmark") ++
    [if number < client.window then ndn.fromSegment number else .generic (toString number)]

/-- What the two encodings of numbers are taken to satisfy. -/
structure Encodings (ndn : NdnCxx) (client : Client) : Prop where
  segments : ∀ left < client.window, ∀ right < client.window, ndn.fromSegment left = ndn.fromSegment right →
    left = right
  apart : ∀ segment number, ndn.fromSegment segment ≠ .generic (toString number)

theorem Encodings.injective (encodings : Encodings ndn client) {left right : Nat}
    (same : client.numbered ndn left = client.numbered ndn right) : left = right := by
  have last := List.head_eq_of_cons_eq (List.append_cancel_left same)
  by_cases below : left < client.window
  · by_cases under : right < client.window
    · rw [if_pos below, if_pos under] at last
      exact encodings.segments left below right under last
    · rw [if_pos below, if_neg under] at last
      exact absurd last (encodings.apart left right)
  · by_cases under : right < client.window
    · rw [if_neg below, if_pos under] at last
      exact absurd last.symm (encodings.apart right left)
    · rw [if_neg below, if_neg under] at last
      exact toString_injective (congrArg Component.value last)

/-- The name of the Data that an event brings. -/
def Event.answers : Event → Option Name
  | .data _ packet _ => some packet.name
  | .nack _ _ => none
  | .timeout _ => none
  | .timer => none

/-! ## What an event does to the window -/

/-- The Interests on the face are numbered below the counter, one for a number
and none for one whose Data has come. -/
structure Numbered (ndn : NdnCxx) (client : Client) (past : List Event) (state : State) : Prop where
  asked : ∀ pending ∈ state.face, ∃ number < state.currentPacket, pending.interest.name = client.numbered ndn number
  retries : ∀ pending ∈ state.face, pending.onTimeout.retries ≤ 5
  distinct : (state.face.map (·.interest.name)).Nodup
  answered : ∀ event ∈ past, ∀ name ∈ event.answers,
    (∃ number < state.currentPacket, name = client.numbered ndn number) ∧
    ∀ pending ∈ state.face, pending.interest.name ≠ name

/-- An Interest leaves the face, and no other one has its name. -/
theorem Numbered.alone (listed : Numbered ndn client past state) (member : pending ∈ state.face) :
    ∀ other ∈ (state.settle pending).face, other.interest.name ≠ pending.interest.name := by
  intro other kept same
  obtain ⟨different, kept⟩ := listed.distinct.of_map.mem_erase_iff.mp kept
  exact different (List.inj_on_of_nodup_map listed.distinct kept member same)

theorem Numbered.settle (listed : Numbered ndn client past state) (pending : Pending) :
    Numbered ndn client past (state.settle pending) where
  asked other kept := listed.asked other (List.mem_of_mem_erase kept)
  retries other kept := listed.retries other (List.mem_of_mem_erase kept)
  distinct := listed.distinct.sublist (List.erase_sublist.map _)
  answered event member name answers := by
    obtain ⟨earlier, unasked⟩ := listed.answered event member name answers
    exact ⟨earlier, fun other kept => unasked other (List.mem_of_mem_erase kept)⟩

theorem Numbered.record (listed : Numbered ndn client past state)
    (last : ∀ name ∈ event.answers, (∃ number < state.currentPacket, name = client.numbered ndn number) ∧
      ∀ pending ∈ state.face, pending.interest.name ≠ name) : Numbered ndn client (past ++ [event]) state :=
  { listed with answered := List.forall_mem_append.mpr ⟨listed.answered, List.forall_mem_singleton.mpr last⟩ }

/-- An Interest whose name is not on the face, and has not been answered. -/
theorem Numbered.express (listed : Numbered ndn client past state)
    (asked : ∃ number < state.currentPacket, pending.interest.name = client.numbered ndn number)
    (few : pending.onTimeout.retries ≤ 5) (alone : ∀ other ∈ state.face, other.interest.name ≠ pending.interest.name)
    (unanswered : ∀ event ∈ past, ∀ name ∈ event.answers, pending.interest.name ≠ name) :
    Numbered ndn client past (state.express pending) where
  asked := List.forall_mem_append.mpr ⟨listed.asked, List.forall_mem_singleton.mpr asked⟩
  retries := List.forall_mem_append.mpr ⟨listed.retries, List.forall_mem_singleton.mpr few⟩
  distinct := by
    simp only [State.express, List.map_append, List.map_cons, List.map_nil]
    refine List.nodup_append.mpr ⟨listed.distinct, List.nodup_singleton _, ?_⟩
    intro name earlier last latest same
    obtain ⟨other, member, rfl⟩ := List.mem_map.mp earlier
    exact alone other member (same.trans (List.mem_singleton.mp latest))
  answered event member name answers := by
    obtain ⟨earlier, unasked⟩ := listed.answered event member name answers
    exact ⟨earlier, List.forall_mem_append.mpr ⟨unasked, List.forall_mem_singleton.mpr
      (unanswered event member name answers)⟩⟩

/-- The Interest for the next number. -/
theorem Numbered.next (encodings : Encodings ndn client) (listed : Numbered ndn client past state)
    (named : pending.interest.name = client.numbered ndn state.currentPacket) (few : pending.onTimeout.retries ≤ 5) :
    Numbered ndn client past ({ state with currentPacket := state.currentPacket + 1 }.express pending) := by
  have apart : ∀ name, (∃ number < state.currentPacket, name = client.numbered ndn number) →
      pending.interest.name ≠ name := by
    intro name earlier same
    obtain ⟨number, below, rfl⟩ := earlier
    have equal := encodings.injective (named.symm.trans same)
    omega
  have grown : Numbered ndn client past { state with currentPacket := state.currentPacket + 1 } := by
    refine ⟨fun other member => ?_, listed.retries, listed.distinct, fun event member name answers => ?_⟩
    · obtain ⟨number, below, same⟩ := listed.asked other member
      exact ⟨number, Nat.lt_succ_of_lt below, same⟩
    · obtain ⟨⟨number, below, same⟩, unasked⟩ := listed.answered event member name answers
      exact ⟨⟨number, Nat.lt_succ_of_lt below, same⟩, unasked⟩
  refine grown.express ⟨_, Nat.lt_succ_self _, named⟩ few (fun other member same => ?_)
    (fun event member name answers => ?_)
  · exact apart _ (listed.asked other member) same.symm
  · exact apart name (listed.answered event member name answers).1

/-- A Nack or a timeout: the Interest is expressed again under its name. -/
theorem Numbered.again {again : Pending} (listed : Numbered ndn client past state) (member : pending ∈ state.face)
    (silent : event.answers = none) (named : again.interest = pending.interest) (few : again.onTimeout.retries ≤ 5) :
    Numbered ndn client (past ++ [event]) ((state.settle pending).express again) := by
  have settled : Numbered ndn client (past ++ [event]) (state.settle pending) :=
    (listed.settle pending).record (by simp [silent])
  have unanswered : ∀ earlier ∈ past ++ [event], ∀ name ∈ earlier.answers, again.interest.name ≠ name := by
    refine List.forall_mem_append.mpr ⟨fun earlier kept name answers => ?_, by simp [silent]⟩
    exact named ▸ (listed.answered earlier kept name answers).2 pending member
  exact settled.express (named ▸ listed.asked pending member) few (named ▸ listed.alone member) unanswered

/-! ## Every run -/

/-- The window is full, and its names are numbered. -/
structure Windowed (ndn : NdnCxx) (client : Client) (past : List Event) (state : State) : Prop where
  benchmarking : Benchmarking past state
  listed : Numbered ndn client past state
  size : state.face.length = client.window
  reached : client.window ≤ state.currentPacket

/-- The loop of `run`. -/
theorem numbered_window (encodings : Encodings ndn client) (now : Int) {rounds : Nat}
    (listed : Numbered ndn client [] state) (mode : state.download = false)
    (within : state.currentPacket + rounds ≤ client.window) :
    Numbered ndn client [] (client.expressWindow ndn now rounds state) ∧
      (client.expressWindow ndn now rounds state).face.length = state.face.length + rounds ∧
      (client.expressWindow ndn now rounds state).currentPacket = state.currentPacket + rounds := by
  induction rounds generalizing state with
  | zero => exact ⟨listed, rfl, rfl⟩
  | succ rounds ih =>
      have below : state.currentPacket < client.window := by omega
      have named : (benchmarkInterest (client.baseName ndn false ++
          [ndn.fromSegment state.currentPacket]) now 5).interest.name = client.numbered ndn state.currentPacket := by
        simp only [benchmarkInterest, baseName, numbered, below, if_true, Bool.false_eq_true, if_false]
      have next : client.expressNext ndn now state = { state with currentPacket := state.currentPacket + 1 }.express
          (benchmarkInterest (client.baseName ndn false ++ [ndn.fromSegment state.currentPacket]) now 5) := by
        have unloaded : ¬state.download = true := by simp [mode]
        have base : client.baseName ndn state.download = client.baseName ndn false := by rw [mode]
        simp only [expressNext, if_neg unloaded, base]
        rfl
      rw [expressWindow, next]
      obtain ⟨all, size, counter⟩ := ih (listed.next encodings named (Nat.le_refl 5)) mode
        (by simp only [State.express]; omega)
      refine ⟨all, ?_, ?_⟩
      · rw [size]
        simp only [State.express, List.length_append, List.length_singleton]
        omega
      · rw [counter]
        simp only [State.express]
        omega

theorem windowed_run (benchmark : client.filePath = []) (encodings : Encodings ndn client) (opens : Bool) (now : Int) :
    Windowed ndn client [] (client.run ndn opens now .initial) := by
  have benchmarking := @benchmarking_run ndn client benchmark opens now
  have empty : Numbered ndn client [] State.initial := by
    refine ⟨?_, ?_, List.nodup_nil, ?_⟩ <;> simp [State.initial]
  obtain ⟨listed, size, counter⟩ := @numbered_window ndn client State.initial encodings now client.window empty rfl
    (by simp [State.initial])
  have started : client.run ndn opens now .initial = client.expressWindow ndn now client.window .initial := by
    simp only [run, benchmark, List.isEmpty_nil, if_true, State.initial, Nat.sub_zero]
  rw [started] at benchmarking ⊢
  refine ⟨benchmarking, listed, ?_, ?_⟩
  · rw [size]
    exact Nat.zero_add _
  · rw [counter]
    exact Nat.le_add_left _ _

/-- An event that the client survives: a timeout has retries left. -/
def Event.Survivable : Event → Prop
  | .data _ _ _ => True
  | .nack _ _ => True
  | .timeout pending => 0 < pending.onTimeout.retries
  | .timer => True

theorem settle_length (member : pending ∈ state.face) : (state.settle pending).face.length + 1 = state.face.length := by
  have one := List.length_erase_of_mem member
  have positive := List.length_pos_of_mem member
  simp only [State.settle]
  omega

/-- A Nack or a timeout leaves the window as it was. -/
theorem Windowed.again {again : Pending} (windowed : Windowed ndn client past before) (member : pending ∈ before.face)
    (moved : client.step ndn before event = some ((before.settle pending).express again))
    (silent : event.answers = none) (named : again.interest = pending.interest) (few : again.onTimeout.retries ≤ 5) :
    Windowed ndn client (past ++ [event]) ((before.settle pending).express again) where
  benchmarking := windowed.benchmarking.step moved
  listed := windowed.listed.again member silent named few
  size := by
    simp only [State.express, List.length_append, List.length_singleton]
    exact (settle_length member).trans windowed.size
  reached := windowed.reached

theorem Windowed.step (windowed : Windowed ndn client past before) (encodings : Encodings ndn client)
    (stays : client.exitOnNack = false) (survivable : event.Survivable)
    (moved : client.step ndn before event = some after) :
    Windowed ndn client (past ++ [event]) after := by
  have acted := moved
  simp only [Client.step, Option.ite_none_right_eq_some] at acted
  obtain ⟨_, acted⟩ := acted
  have mode := windowed.benchmarking.mode
  cases event with
  | data pending packet now =>
      simp only [Option.ite_none_right_eq_some, Option.some.injEq] at acted
      obtain ⟨⟨member, answers⟩, rfl⟩ := acted
      obtain ⟨start, retries, handler, _⟩ := windowed.benchmarking.timed pending member
      have later : ¬before.currentPacket < client.window := Nat.not_lt.mpr windowed.reached
      have named : client.namePrefix ++ ndn.nameOfUri (ascii "benchmark") ++
          ndn.nameOfUri (toString before.currentPacket) = client.numbered ndn before.currentPacket := by
        rw [numbered, if_neg later, ndn.nameOfUri_plain _ (plain_toString _)]
      have settled : Numbered ndn client (past ++ [.data pending packet now]) (before.settle pending) := by
        refine (windowed.listed.settle pending).record fun name answered => ?_
        obtain rfl : packet.name = name := Option.some.inj answered
        exact answers ▸ ⟨windowed.listed.asked pending member, windowed.listed.alone member⟩
      have asked : (benchmarkInterest (client.namePrefix ++ ndn.nameOfUri (ascii "benchmark") ++
          ndn.nameOfUri (toString before.currentPacket)) now 5).interest.name =
          client.numbered ndn (before.settle pending).currentPacket := named
      have next := settled.next encodings asked (Nat.le_refl 5)
      have benchmarking := windowed.benchmarking.step moved
      rw [handler] at benchmarking ⊢
      refine ⟨benchmarking, ⟨next.asked, next.retries, next.distinct, next.answered⟩, ?_, ?_⟩
      · simp only [handleData, onData, State.express, List.length_append, List.length_singleton]
        exact (settle_length member).trans windowed.size
      · exact windowed.reached.trans (Nat.le_succ _)
  | nack pending now =>
      simp only [Option.ite_none_right_eq_some, Option.some.injEq] at acted
      obtain ⟨member, resent⟩ := acted
      have unloaded : ¬(before.settle pending).download = true := by simp [State.settle, mode]
      simp only [onNack, stays, Bool.false_eq_true, if_false, if_neg unloaded] at resent
      subst resent
      exact windowed.again member moved rfl rfl (Nat.le_refl 5)
  | timeout pending =>
      simp only [Option.ite_none_right_eq_some, Option.some.injEq] at acted
      obtain ⟨member, resent⟩ := acted
      obtain ⟨start, retries, _, handler⟩ := windowed.benchmarking.timed pending member
      have few := windowed.listed.retries pending member
      have left : 0 < pending.onTimeout.retries := survivable
      simp only [handler, TimeoutHandler.retries] at few left
      simp only [handler, handleTimeout, onTimeout, left, if_true] at resent
      subst resent
      exact windowed.again member moved rfl rfl (by simp only [TimeoutHandler.retries]; omega)
  | timer =>
      simp only [mode, Bool.false_eq_true, if_false, Option.some.injEq] at acted
      subst acted
      have listed : Numbered ndn client (past ++ [.timer]) before := windowed.listed.record (by simp [Event.answers])
      exact ⟨windowed.benchmarking.step moved, ⟨listed.asked, listed.retries, listed.distinct, listed.answered⟩,
        windowed.size, windowed.reached⟩

/-- As many Interests as the window are outstanding, each under a name of its
own that no Data has answered, with up to five timeouts left. -/
structure WindowKept (client : Client) (events : List Event) (state : State) : Prop where
  size : state.face.length = client.window
  distinct : (state.face.map (·.interest.name)).Nodup
  unanswered : ∀ event ∈ events, ∀ name ∈ event.answers, ∀ pending ∈ state.face, pending.interest.name ≠ name
  retries : ∀ pending ∈ state.face, pending.onTimeout.retries ≤ 5

/-- In every order of Data, Nacks and timeouts the benchmark keeps its window. -/
theorem window_kept (benchmark : client.filePath = []) (stays : client.exitOnNack = false)
    (encodings : Encodings ndn client) (survivable : ∀ event ∈ events, event.Survivable)
    (ran : (client.system ndn opens).run (client.run ndn opens now .initial) events = some state) :
    WindowKept client events state := by
  have windowed : Windowed ndn client ([] ++ events) state :=
    System.run_records_of (fun windowed survivable moved => Windowed.step windowed encodings stays survivable moved)
      (windowed_run benchmark encodings opens now) survivable ran
  exact ⟨windowed.size, windowed.listed.distinct,
    fun event member name answers => (windowed.listed.answered event member name answers).2, windowed.listed.retries⟩

theorem encodings_reference (range : client.window ≤ 2 ^ 64) : Encodings .reference client where
  segments left below right under same := NdnCxx.reference.fromSegment_injective (by omega) (by omega) same
  apart segment number same := by
    have type : Reference.segmentType = Component.genericType := congrArg Component.type same
    exact absurd type (by decide)

/-- The Data of the first name, a timeout of the second and a Nack for the third. -/
def sampleWindow : List Event :=
  [benchmarkAnswer 0 10, .timeout (benchmarkInterest (benchmarkClient.numbered .reference 1) 0 5),
    .nack (benchmarkInterest (benchmarkClient.numbered .reference 2) 10 5) 20]

theorem window_kept_sample :
    ∃ state, (benchmarkClient.system .reference true).run (benchmarkClient.run .reference true 0 .initial)
      sampleWindow = some state ∧ WindowKept benchmarkClient sampleWindow state := by
  have runs : ((benchmarkClient.system .reference true).run (benchmarkClient.run .reference true 0 .initial)
      sampleWindow).isSome := by decide +kernel
  obtain ⟨state, ran⟩ := Option.isSome_iff_exists.mp runs
  have survivable : ∀ event ∈ sampleWindow, event.Survivable := by
    simp [sampleWindow, benchmarkAnswer, benchmarkInterest, Event.Survivable, TimeoutHandler.retries]
  exact ⟨state, ran, window_kept rfl rfl (encodings_reference (by decide)) survivable ran⟩

end Ndnperf.Cxx.Client

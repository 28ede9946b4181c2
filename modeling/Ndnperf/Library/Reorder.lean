import Mathlib.Data.List.AList

namespace Library.Reorder

/-! In-order delivery of numbered payloads that arrive in any order.

A reorder buffer holds the payloads that came too early under their number and
hands out the next one when it is there. What has arrived so far is the partial
function `arrived`; what the buffer holds tracks it when these are exactly the
arrived payloads from `next` on and everything before `next` has been handed out.
-/

variable {Payload Key : Type}

structure Tracks (arrived held : Nat → Option Payload) (next : Nat) : Prop where
  held : ∀ index, held index = if index < next then none else arrived index
  delivered : ∀ index < next, (arrived index).isSome

namespace Tracks

variable {arrived held : Nat → Option Payload} {next index : Nat} {payload : Payload}

theorem empty : Tracks (fun _ => none) (fun _ => none : Nat → Option Payload) 0 where
  held _ := rfl
  delivered index below := by omega

theorem isSome_held (tracks : Tracks arrived held next) :
    (held index).isSome ↔ next ≤ index ∧ (arrived index).isSome := by
  rw [tracks.held]
  split <;> simp <;> omega

theorem store (tracks : Tracks arrived held next) (fresh : arrived index = none) (payload : Payload) :
    Tracks (Function.update arrived index (some payload)) (Function.update held index (some payload)) next := by
  have early : next ≤ index := by
    by_contra late
    simpa [fresh] using tracks.delivered index (by omega)
  constructor
  · intro other
    by_cases same : other = index
    · subst same
      have ahead : ¬other < next := by omega
      simp [ahead]
    · simp [Function.update_of_ne same, tracks.held]
  · intro other below
    have different : other ≠ index := by omega
    rw [Function.update_of_ne different]
    exact tracks.delivered other below

theorem deliver (tracks : Tracks arrived held next) (found : held next = some payload) :
    arrived next = some payload ∧ Tracks arrived (Function.update held next none) (next + 1) := by
  have here : arrived next = some payload := by simpa [tracks.held] using found
  refine ⟨here, fun index => ?_, fun index below => ?_⟩
  · by_cases same : index = next
    · simp [same]
    · have moved : index < next + 1 ↔ index < next := by omega
      simp only [Function.update_of_ne same, tracks.held, moved]
  · rcases Nat.lt_succ_iff_lt_or_eq.mp below with earlier | rfl
    · exact tracks.delivered index earlier
    · simp [here]

theorem next_missing (tracks : Tracks arrived held next) (stuck : held next = none) : arrived next = none := by
  simpa [tracks.held] using stuck

end Tracks

section Arrival

variable {arrived : Nat → Option Payload} {index : Nat} {payload : Payload} {Valid : Nat → Payload → Prop}

theorem isSome_update {other : Nat} :
    (Function.update arrived index (some payload) other).isSome ↔ other = index ∨ (arrived other).isSome := by
  by_cases same : other = index
  · subst same
    simp
  · simp [same]

/-- What holds of the payloads so far and of the one that arrives holds of all of them. -/
theorem update_valid (valid : ∀ other found, arrived other = some found → Valid other found)
    (here : Valid index payload) :
    ∀ other found, Function.update arrived index (some payload) other = some found → Valid other found := by
  intro other found known
  by_cases same : other = index
  · subst same
    rw [Function.update_self, Option.some.injEq] at known
    exact known ▸ here
  · rw [Function.update_of_ne same] at known
    exact valid other found known

end Arrival

section Lookup

variable [DecidableEq Key] (held : AList fun _ : Key => Payload) {key : Nat → Key} (distinct : Function.Injective key)
include distinct

theorem lookup_insert (index : Nat) (payload : Payload) :
    (fun other => (held.insert (key index) payload).lookup (key other)) =
      Function.update (fun other => held.lookup (key other)) index (some payload) := by
  funext other
  by_cases same : other = index
  · subst same
    simp
  · rw [Function.update_of_ne same, AList.lookup_insert_ne (fun equal => same (distinct equal))]

theorem lookup_erase (index : Nat) :
    (fun other => (held.erase (key index)).lookup (key other)) =
      Function.update (fun other => held.lookup (key other)) index none := by
  funext other
  by_cases same : other = index
  · subst same
    simp
  · rw [Function.update_of_ne same, AList.lookup_erase_ne (fun equal => same (distinct equal))]

end Lookup

/-! A buffer over an association list that is drained in one go. -/

structure Buffer (Payload : Type) where
  next : Nat
  held : AList (fun _ : Nat => Payload)

namespace Buffer

def empty : Buffer Payload := { next := 0, held := ∅ }

def store (buffer : Buffer Payload) (index : Nat) (payload : Payload) : Buffer Payload :=
  { buffer with held := buffer.held.insert index payload }

def deliver (buffer : Buffer Payload) : Option (Payload × Buffer Payload) :=
  (buffer.held.lookup buffer.next).map fun payload =>
    (payload, { next := buffer.next + 1, held := buffer.held.erase buffer.next })

/-- Deliver until the next payload is missing; each delivery removes one entry. -/
def drain : Nat → Buffer Payload → List Payload × Buffer Payload
  | 0, buffer => ([], buffer)
  | fuel + 1, buffer =>
      match buffer.deliver with
      | none => ([], buffer)
      | some (payload, rest) => (payload :: (drain fuel rest).1, (drain fuel rest).2)

def Tracks (arrived : Nat → Option Payload) (buffer : Buffer Payload) : Prop :=
  Reorder.Tracks arrived (fun index => buffer.held.lookup index) buffer.next

variable {arrived : Nat → Option Payload} {buffer : Buffer Payload}

theorem tracks_empty : Tracks (fun _ => none) (empty : Buffer Payload) := Reorder.Tracks.empty

theorem deliver_eq {payload : Payload} {rest : Buffer Payload} (delivered : buffer.deliver = some (payload, rest)) :
    buffer.held.lookup buffer.next = some payload ∧
      rest = { next := buffer.next + 1, held := buffer.held.erase buffer.next } := by
  simp only [deliver, Option.map_eq_some_iff, Prod.mk.injEq] at delivered
  obtain ⟨_, found, rfl, rfl⟩ := delivered
  exact ⟨found, rfl⟩

theorem deliver_eq_none : buffer.deliver = none ↔ buffer.held.lookup buffer.next = none := by
  simp only [deliver, Option.map_eq_none_iff]

namespace Tracks

theorem mem_held (tracks : Tracks arrived buffer) (index : Nat) :
    index ∈ buffer.held ↔ buffer.next ≤ index ∧ (arrived index).isSome := by
  rw [← AList.lookup_isSome]
  exact Reorder.Tracks.isSome_held tracks

theorem store (tracks : Tracks arrived buffer) {index : Nat} (fresh : arrived index = none) (payload : Payload) :
    Tracks (Function.update arrived index (some payload)) (buffer.store index payload) := by
  have stored := Reorder.Tracks.store tracks fresh payload
  have inserted := lookup_insert buffer.held Function.injective_id index payload
  simp only [id] at inserted
  rw [← inserted] at stored
  exact stored

theorem deliver (tracks : Tracks arrived buffer) {payload : Payload} {rest : Buffer Payload}
    (delivered : buffer.deliver = some (payload, rest)) :
    arrived buffer.next = some payload ∧ Tracks arrived rest := by
  obtain ⟨found, rfl⟩ := deliver_eq delivered
  obtain ⟨here, remaining⟩ := Reorder.Tracks.deliver tracks found
  have erased := lookup_erase buffer.held Function.injective_id buffer.next
  simp only [id] at erased
  rw [← erased] at remaining
  exact ⟨here, remaining⟩

theorem next_missing (tracks : Tracks arrived buffer) (stuck : buffer.deliver = none) :
    arrived buffer.next = none :=
  Reorder.Tracks.next_missing tracks (deliver_eq_none.mp stuck)

end Tracks

/-- Draining hands out the arrived payloads from `next` on, in order, up to the
first one that is missing. Fuel for every held entry is enough. -/
theorem drain_tracks {fuel : Nat} (enough : buffer.held.keys.length ≤ fuel) (tracks : Tracks arrived buffer) :
    Tracks arrived (drain fuel buffer).2 ∧ arrived (drain fuel buffer).2.next = none ∧
      buffer.next ≤ (drain fuel buffer).2.next ∧
      (drain fuel buffer).1.map some =
        (List.range' buffer.next ((drain fuel buffer).2.next - buffer.next)).map arrived := by
  induction fuel generalizing buffer with
  | zero =>
      have vacant : buffer.held.lookup buffer.next = none := by
        have none := List.length_eq_zero_iff.mp (Nat.le_zero.mp enough)
        simp [AList.lookup_eq_none, AList.mem_keys, none]
      refine ⟨tracks, tracks.next_missing (deliver_eq_none.mpr vacant), le_refl _, ?_⟩
      simp [drain]
  | succ fuel ih =>
      cases delivery : buffer.deliver with
      | none =>
          simp only [drain, delivery]
          exact ⟨tracks, tracks.next_missing delivery, le_refl _, by simp⟩
      | some result =>
          obtain ⟨payload, rest⟩ := result
          obtain ⟨found, restEq⟩ := deliver_eq delivery
          obtain ⟨here, restTracks⟩ := tracks.deliver delivery
          have advanced : rest.next = buffer.next + 1 := by rw [restEq]
          have member : buffer.next ∈ buffer.held.keys := by
            rw [← AList.mem_keys, ← AList.lookup_isSome, found]
            rfl
          have smaller : rest.held.keys.length ≤ fuel := by
            rw [restEq, AList.keys_erase, List.length_erase_of_mem member]
            omega
          obtain ⟨finalTracks, stuck, later, handed⟩ := ih smaller restTracks
          simp only [drain, delivery]
          refine ⟨finalTracks, stuck, by omega, ?_⟩
          have count : (drain fuel rest).2.next - buffer.next =
              (drain fuel rest).2.next - rest.next + 1 := by omega
          rw [List.map_cons, handed, count, List.range'_succ, List.map_cons, here, advanced]

end Buffer

end Library.Reorder

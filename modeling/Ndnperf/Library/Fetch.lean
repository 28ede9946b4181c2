import Mathlib.Data.Finset.Card
import Mathlib.Data.Finset.Range
import Ndnperf.Library.Transition

namespace Library.Fetch

open Library.Transition

/-! What a windowed download is for, without packets or payloads.

Pieces are asked for in increasing order. `issued` of them have been asked for
so far and `answered` holds those that came back. A fetcher starts with a
window of requests and, while fewer than `count` pieces have been asked for,
every answer lets it ask for the next one.
-/

structure State where
  issued : Nat
  answered : Finset Nat

variable {window count : Nat}

namespace State

def outstanding (state : State) : Finset Nat := Finset.range state.issued \ state.answered

theorem mem_outstanding {state : State} {index : Nat} :
    index ∈ state.outstanding ↔ index < state.issued ∧ index ∉ state.answered := by
  simp only [outstanding, Finset.mem_sdiff, Finset.mem_range]

def answer (count : Nat) (state : State) (index : Nat) : Option State :=
  if index ∈ state.outstanding then
    some { issued := if state.issued < count then state.issued + 1 else state.issued
           answered := insert index state.answered }
  else none

end State

def system (window count : Nat) : System State Nat where
  start state := state = { issued := window, answered := ∅ }
  step := State.answer count

/-- Each request is either answered or still outstanding, and none is issued
beyond the window once `count` is reached. -/
structure WellFormed (window count : Nat) (state : State) : Prop where
  answered : state.answered ⊆ Finset.range state.issued
  opened : window ≤ state.issued
  windowed : state.issued ≤ window + state.answered.card
  replaced : state.issued < count → state.issued = window + state.answered.card
  bounded : state.issued ≤ max window count

theorem State.answer_of_mem (count : Nat) {state : State} {index : Nat} (member : index ∈ state.outstanding) :
    ∃ next, state.answer count index = some next := by
  simp only [answer, if_pos member, Option.some.injEq, exists_eq']

theorem State.answer_eq {state next : State} {index : Nat} (moved : state.answer count index = some next) :
    index ∈ state.outstanding ∧
      next.issued = (if state.issued < count then state.issued + 1 else state.issued) ∧
      next.answered = insert index state.answered := by
  simp only [answer, Option.ite_none_right_eq_some, Option.some.injEq] at moved
  obtain ⟨member, rfl⟩ := moved
  exact ⟨member, rfl, rfl⟩

theorem State.answer_outstanding {state next : State} {index : Nat}
    (within : state.answered ⊆ Finset.range state.issued) (moved : state.answer count index = some next) :
    next.outstanding =
      if state.issued < count then insert state.issued (state.outstanding.erase index)
      else state.outstanding.erase index := by
  obtain ⟨member, issued, answered⟩ := State.answer_eq moved
  have below := (State.mem_outstanding.mp member).1
  have ahead : state.issued ∉ state.answered := fun known =>
    absurd (Finset.mem_range.mp (within known)) (Nat.lt_irrefl _)
  split <;> rename_i more <;> ext piece <;>
    simp only [State.mem_outstanding, issued, answered, more, if_true, if_false, Finset.mem_insert,
      Finset.mem_erase, not_or]
  · constructor
    · intro held
      obtain ⟨inside, different, unanswered⟩ := held
      rcases Nat.lt_succ_iff_lt_or_eq.mp inside with earlier | rfl
      · exact .inr ⟨different, earlier, unanswered⟩
      · exact .inl rfl
    · intro held
      rcases held with rfl | ⟨different, earlier, unanswered⟩
      · exact ⟨Nat.lt_succ_self _, by omega, ahead⟩
      · exact ⟨Nat.lt_succ_of_lt earlier, different, unanswered⟩
  · exact ⟨fun ⟨inside, different, unanswered⟩ => ⟨different, inside, unanswered⟩,
      fun ⟨different, inside, unanswered⟩ => ⟨inside, different, unanswered⟩⟩

theorem State.issued_notMem_outstanding {state : State} : state.issued ∉ state.outstanding := fun inside =>
  absurd (State.mem_outstanding.mp inside).1 (Nat.lt_irrefl _)

theorem wellFormed_inductive (window count : Nat) : (system window count).Inductive (WellFormed window count) := by
  constructor
  · intro state initial
    subst initial
    exact ⟨by simp, le_refl _, by simp, by simp, by simp⟩
  · intro before index after valid moved
    obtain ⟨member, issued, answered⟩ := State.answer_eq moved
    obtain ⟨inside, fresh⟩ := State.mem_outstanding.mp member
    have size : after.answered.card = before.answered.card + 1 := by
      rw [answered, Finset.card_insert_of_notMem fresh]
    have grows : before.issued ≤ after.issued := by rw [issued]; split <;> omega
    have answeredWithin : after.answered ⊆ Finset.range after.issued := by
      rw [answered]
      intro piece known
      rcases Finset.mem_insert.mp known with rfl | known
      · exact Finset.mem_range.mpr (by omega)
      · exact Finset.mem_range.mpr (by have := Finset.mem_range.mp (valid.answered known); omega)
    obtain ⟨_, opened, windowed, replaced, bounded⟩ := valid
    refine ⟨answeredWithin, by omega, ?_, ?_, ?_⟩ <;> rw [issued] <;> split <;> omega

section Reachable

variable {state : State} (reached : (system window count).Reachable state)
include reached

theorem wellFormed : WellFormed window count state := (wellFormed_inductive window count).reachable reached

theorem outstanding_card : state.outstanding.card = state.issued - state.answered.card := by
  rw [State.outstanding, Finset.card_sdiff_of_subset (wellFormed reached).answered, Finset.card_range]

theorem outstanding_card_le : state.outstanding.card ≤ window := by
  have size := outstanding_card reached
  have bound := (wellFormed reached).windowed
  omega

/-- While a piece is missing, a request is on its way: the fetcher never
stops short with nothing outstanding. -/
theorem outstanding_nonempty (positive : 0 < window) {missing : Nat} (inside : missing < count)
    (absent : missing ∉ state.answered) : state.outstanding.Nonempty := by
  by_cases more : state.issued < count
  · have size := outstanding_card reached
    have refilled := (wellFormed reached).replaced more
    exact Finset.card_pos.mp (by omega)
  · exact ⟨missing, State.mem_outstanding.mpr ⟨by omega, absent⟩⟩

/-- Once everything asked for is answered, everything wanted was asked for. -/
theorem answered_of_idle (positive : 0 < window) (idle : state.outstanding = ∅) {index : Nat}
    (inside : index < count) : index ∈ state.answered := by
  by_contra absent
  exact Finset.not_nonempty_iff_eq_empty.mpr idle (outstanding_nonempty reached positive inside absent)

end Reachable

end Library.Fetch

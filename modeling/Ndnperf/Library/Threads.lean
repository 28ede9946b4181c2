import Mathlib.Algebra.BigOperators.Group.Finset.Basic
import Mathlib.Algebra.BigOperators.Group.Finset.Piecewise
import Mathlib.Data.Fintype.Card

namespace Library.Threads

/-! Sums over the threads of a finite family when one of them moves, and how
many of them are at a certain place. -/

section Sums

variable {Thread Place Amount : Type} [Fintype Thread] [DecidableEq Thread] [AddCommMonoid Amount]

theorem sum_update (amounts : Thread → Amount) (thread : Thread) (next : Amount) :
    (∑ other, Function.update amounts thread next other) + amounts thread = (∑ other, amounts other) + next := by
  have before : (∑ other, amounts other) = amounts thread + ∑ other ∈ Finset.univ \ {thread}, amounts other :=
    Finset.sum_eq_add_sum_sdiff_singleton_of_mem (Finset.mem_univ thread) _
  rw [Finset.sum_update_of_mem (Finset.mem_univ thread), before]
  ac_rfl

theorem sum_weigh_update (weigh : Place → Amount) (places : Thread → Place) (thread : Thread) (next : Place) :
    (∑ other, weigh (Function.update places thread next other)) + weigh (places thread) =
      (∑ other, weigh (places other)) + weigh next := by
  have moved := sum_update (weigh ∘ places) thread (weigh next)
  rwa [← Function.comp_update] at moved

theorem sum_of_others {amounts next : Thread → Amount} {thread : Thread}
    (others : ∀ other, other ≠ thread → next other = amounts other) :
    (∑ other, next other) + amounts thread = (∑ other, amounts other) + next thread := by
  have same : next = Function.update amounts thread (next thread) := by
    funext other
    by_cases here : other = thread
    · rw [here, Function.update_self]
    · rw [Function.update_of_ne here, others other here]
  have moved := sum_update amounts thread (next thread)
  rwa [← same] at moved

end Sums

variable {Thread Place : Type} [Fintype Thread] (At : Place → Prop) [DecidablePred At]

def threadsAt (places : Thread → Place) : Nat := (Finset.univ.filter fun thread => At (places thread)).card

theorem threadsAt_le_card (places : Thread → Place) : threadsAt At places ≤ Fintype.card Thread := Finset.card_le_univ _

theorem threadsAt_pos {places : Thread → Place} {thread : Thread} (here : At (places thread)) :
    0 < threadsAt At places :=
  Finset.card_pos.mpr ⟨thread, Finset.mem_filter.mpr ⟨Finset.mem_univ _, here⟩⟩

theorem threadsAt_eq_zero {places : Thread → Place} (absent : ∀ thread, ¬At (places thread)) :
    threadsAt At places = 0 :=
  Finset.card_eq_zero.mpr (Finset.filter_false_of_mem fun thread _ => absent thread)

theorem threadsAt_update [DecidableEq Thread] (places : Thread → Place) (thread : Thread) (next : Place) :
    threadsAt At (Function.update places thread next) + (if At (places thread) then 1 else 0) =
      threadsAt At places + if At next then 1 else 0 := by
  simp only [threadsAt, Finset.card_filter]
  exact sum_weigh_update (fun place => if At place then 1 else 0) places thread next

end Library.Threads

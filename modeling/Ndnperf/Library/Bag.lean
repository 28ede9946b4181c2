import Mathlib.Algebra.BigOperators.Group.Finset.Basic
import Mathlib.Algebra.Order.Group.Multiset
import Ndnperf.Library.Threads
import Ndnperf.Library.Transition

namespace Library.Bag

open Library.Transition

/-! A bag from which each element is taken once, and what each thread has taken
in which order. -/

structure State (Thread Element : Type) where
  items : Multiset Element
  taken : Thread → List Element

inductive Label (Thread Element : Type) where
  | put (element : Element)
  | take (thread : Thread) (element : Element)

variable {Thread Element : Type} [DecidableEq Thread] [DecidableEq Element]

def State.initial : State Thread Element where
  items := 0
  taken _ := []

def step (state : State Thread Element) : Label Thread Element → Option (State Thread Element)
  | .put element => some { state with items := state.items + {element} }
  | .take thread element =>
      if element ∈ state.items then
        some ⟨state.items.erase element, Function.update state.taken thread (state.taken thread ++ [element])⟩
      else none

def system : System (State Thread Element) (Label Thread Element) where
  start state := state = .initial
  step := step

def Label.element : Label Thread Element → Multiset Element
  | .put element => {element}
  | .take _ _ => 0

/-- What a step takes is gone, and nothing else. -/
theorem items_step [Fintype Thread] {before after : State Thread Element} {label : Label Thread Element}
    (moved : step before label = some after) :
    after.items + ∑ thread, (after.taken thread : Multiset Element) =
      before.items + ∑ thread, (before.taken thread : Multiset Element) + label.element := by
  cases label with
  | put element =>
      cases Option.some.inj moved
      exact add_right_comm _ _ _
  | take thread element =>
      obtain ⟨member, moved⟩ := Option.ite_none_right_eq_some.mp moved
      cases Option.some.inj moved
      have more := Threads.sum_weigh_update (fun taken : List Element => (taken : Multiset Element)) before.taken thread
        (before.taken thread ++ [element])
      rw [← Multiset.coe_add, ← add_assoc, add_right_comm, Multiset.coe_singleton] at more
      have more := add_right_cancel more
      change before.items.erase element + _ = before.items + _ + 0
      rw [add_zero, more, ← add_assoc, add_right_comm, add_comm _ ({element} : Multiset Element),
        Multiset.singleton_add, Multiset.cons_erase member]

/-- What was put in is still there or has been taken by one thread. -/
theorem items_run [Fintype Thread] {before after : State Thread Element} {labels : List (Label Thread Element)}
    (ran : system.run before labels = some after) :
    after.items + ∑ thread, (after.taken thread : Multiset Element) =
      before.items + ∑ thread, (before.taken thread : Multiset Element) + (labels.map Label.element).sum := by
  induction labels generalizing before with
  | nil =>
      simp only [System.run, Option.some.injEq] at ran
      rw [ran, List.map_nil, List.sum_nil, add_zero]
  | cons label rest ih =>
      obtain ⟨middle, moved, remaining⟩ := System.run_cons.mp ran
      rw [ih remaining, items_step moved, List.map_cons, List.sum_cons, add_assoc]

end Library.Bag

import Mathlib.Logic.Function.Basic
import Ndnperf.Library.Transition

namespace Library.Semaphore

open Library.Transition

/-! A counting semaphore that keeps account of who has taken how much. -/

structure State (Owner : Type) where
  value : Nat
  held : Owner → Nat

inductive Label (Owner : Type) where
  | acquire (owner : Owner) (amount : Nat)
  | release (amount : Nat)
deriving DecidableEq, Repr

variable {Owner : Type} [DecidableEq Owner]

def State.initial (value : Nat) : State Owner where
  value := value
  held _ := 0

def step (state : State Owner) : Label Owner → Option (State Owner)
  | .acquire owner amount =>
      if amount ≤ state.value then
        some ⟨state.value - amount, Function.update state.held owner (state.held owner + amount)⟩
      else none
  | .release amount => some { state with value := state.value + amount }

def system (value : Nat) : System (State Owner) (Label Owner) where
  start state := state = .initial value
  step := step

end Library.Semaphore

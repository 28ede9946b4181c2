import Mathlib.Logic.Function.Basic
import Ndnperf.Library.Transition

namespace Library.Fifo

open Library.Transition

/-! A queue whose elements are claimed in the order in which they were put in.
A thread brings out the element of its claim later. -/

structure State (Thread Element : Type) where
  items : List Element
  claimed : Nat
  carried : Thread → Option Element

inductive Label (Thread Element : Type) where
  | put (element : Element)
  | claim (thread : Thread)
  | bring (thread : Thread) (element : Element)

variable {Thread Element : Type} [DecidableEq Thread]

def State.initial : State Thread Element where
  items := []
  claimed := 0
  carried _ := none

def State.carry (state : State Thread Element) (thread : Thread) (element : Option Element) : State Thread Element :=
  { state with carried := Function.update state.carried thread element }

def step [DecidableEq Element] (state : State Thread Element) : Label Thread Element → Option (State Thread Element)
  | .put element => some { state with items := state.items ++ [element] }
  | .claim thread =>
      match state.carried thread, state.items[state.claimed]? with
      | none, some element => some ({ state with claimed := state.claimed + 1 }.carry thread (some element))
      | _, _ => none
  | .bring thread element => if state.carried thread = some element then some (state.carry thread none) else none

def system [DecidableEq Element] : System (State Thread Element) (Label Thread Element) where
  start state := state = .initial
  step := step

/-! ## Histories -/

def puts : List (Label Thread Element) → List Element :=
  List.filterMap fun
    | .put element => some element
    | _ => none

/-- The threads that made the claims, in the order of the claims. -/
def claims : List (Label Thread Element) → List Thread :=
  List.filterMap fun
    | .claim thread => some thread
    | _ => none

def brought (thread : Thread) : List (Label Thread Element) → List Element :=
  List.filterMap fun
    | .bring other element => if other = thread then some element else none
    | _ => none

/-- Each claim gets the element that was put in at its turn. -/
def assigned (labels : List (Label Thread Element)) : List (Thread × Element) := (claims labels).zip (puts labels)

def assignedTo (thread : Thread) (labels : List (Label Thread Element)) : List Element :=
  ((assigned labels).filter (·.1 = thread)).map (·.2)

theorem zip_append_left {First Second : Type} {firsts : List First} {seconds : List Second}
    (short : firsts.length ≤ seconds.length) (rest : List Second) :
    firsts.zip (seconds ++ rest) = firsts.zip seconds := by
  induction firsts generalizing seconds with
  | nil => rfl
  | cons first firsts ih =>
      cases seconds with
      | nil => cases short
      | cons second seconds => exact congrArg ((first, second) :: ·) (ih (Nat.le_of_succ_le_succ short))

theorem zip_concat {First Second : Type} {firsts : List First} {seconds : List Second} {second : Second}
    (found : seconds[firsts.length]? = some second) (first : First) :
    (firsts ++ [first]).zip seconds = firsts.zip seconds ++ [(first, second)] := by
  induction firsts generalizing seconds with
  | nil =>
      cases seconds with
      | nil => cases found
      | cons head seconds =>
          cases found
          rfl
  | cons head firsts ih =>
      cases seconds with
      | nil => cases found
      | cons other seconds => exact congrArg ((head, other) :: ·) (ih found)

/-- What the labels so far say about the state. -/
structure History (labels : List (Label Thread Element)) (state : State Thread Element) : Prop where
  items : state.items = puts labels
  claimed : state.claimed = (claims labels).length
  claimed_le : state.claimed ≤ state.items.length
  brought : ∀ thread, Fifo.brought thread labels ++ (state.carried thread).toList = assignedTo thread labels

theorem history_initial : History [] (.initial : State Thread Element) :=
  ⟨rfl, rfl, Nat.le_refl _, fun _ => rfl⟩

variable {labels : List (Label Thread Element)} {before after : State Thread Element}

theorem History.put (history : History labels before) (element : Element) :
    History (labels ++ [.put element]) { before with items := before.items ++ [element] } := by
  obtain ⟨items, claimed, claimed_le, brought⟩ := history
  have claims_eq : claims (labels ++ [.put element]) = claims labels := by simp [claims]
  have puts_eq : puts (labels ++ [.put element]) = puts labels ++ [element] := by simp [puts]
  have same : assigned (labels ++ [.put element]) = assigned labels := by
    rw [assigned, claims_eq, puts_eq]
    exact zip_append_left (by rw [← claimed, ← items]; exact claimed_le) _
  refine ⟨?_, ?_, ?_, fun thread => ?_⟩
  · rw [puts_eq, items]
  · rw [claims_eq, claimed]
  · rw [List.length_append]
    exact Nat.le_add_right_of_le claimed_le
  · rw [assignedTo, same]
    refine Eq.trans ?_ (brought thread)
    simp [Fifo.brought]

theorem History.claim (history : History labels before) {thread : Thread} {element : Element}
    (idle : before.carried thread = none) (next : before.items[before.claimed]? = some element) :
    History (labels ++ [.claim thread]) ({ before with claimed := before.claimed + 1 }.carry thread
      (some element)) := by
  obtain ⟨items, claimed, _, brought⟩ := history
  have claims_eq : claims (labels ++ [.claim thread]) = claims labels ++ [thread] := by simp [claims]
  have puts_eq : puts (labels ++ [.claim thread]) = puts labels := by simp [puts]
  have more : assigned (labels ++ [.claim thread]) = assigned labels ++ [(thread, element)] := by
    rw [assigned, claims_eq, puts_eq]
    exact zip_concat (by rw [← claimed, ← items]; exact next) _
  obtain ⟨inside, _⟩ := List.getElem?_eq_some_iff.mp next
  refine ⟨items.trans puts_eq.symm, ?_, inside, fun other => ?_⟩
  · rw [claims_eq, List.length_append, ← claimed]
    rfl
  · have former := brought other
    rw [assignedTo, more, List.filter_append, List.map_append]
    rw [assignedTo] at former
    by_cases same : other = thread
    · rw [same, idle] at former
      rw [same, ← former]
      simp [State.carry, Fifo.brought]
    · rw [← former]
      simp [State.carry, Fifo.brought, same, Ne.symm same]

theorem History.bring (history : History labels before) {thread : Thread} {element : Element}
    (carries : before.carried thread = some element) :
    History (labels ++ [.bring thread element]) (before.carry thread none) := by
  obtain ⟨items, claimed, claimed_le, brought⟩ := history
  have claims_eq : claims (labels ++ [.bring thread element]) = claims labels := by simp [claims]
  have puts_eq : puts (labels ++ [.bring thread element]) = puts labels := by simp [puts]
  refine ⟨items.trans puts_eq.symm, ?_, claimed_le, fun other => ?_⟩
  · rw [claims_eq]
    exact claimed
  · have former := brought other
    rw [assignedTo, assigned, claims_eq, puts_eq, ← assigned, ← assignedTo, ← former]
    by_cases same : other = thread
    · rw [same, carries]
      simp [State.carry, Fifo.brought]
    · simp [State.carry, Fifo.brought, same, Ne.symm same]

variable [DecidableEq Element]

theorem History.step (history : History labels before) {label : Label Thread Element}
    (moved : system.step before label = some after) : History (labels ++ [label]) after := by
  cases label with
  | put element => exact Option.some.inj moved ▸ history.put element
  | claim thread =>
      simp only [system, Fifo.step] at moved
      split at moved
      · rename_i idle next
        exact Option.some.inj moved ▸ history.claim idle next
      · cases moved
  | bring thread element =>
      obtain ⟨carries, moved⟩ := Option.ite_none_right_eq_some.mp moved
      exact Option.some.inj moved ▸ history.bring carries

/-- In every history, what a thread brings out are the elements of its claims, in
the order of the claims; the last one may still be missing. -/
theorem history (ran : system.run .initial labels = some after) : History labels after := by
  have kept : History ([] ++ labels) after :=
    @System.run_records _ _ system History (fun history moved => history.step moved) [] labels .initial after
      history_initial ran
  rwa [List.nil_append] at kept

end Library.Fifo

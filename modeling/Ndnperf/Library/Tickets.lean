import Mathlib.Data.Finset.Card
import Mathlib.Data.Finset.Max
import Mathlib.Order.Interval.Finset.Nat
import Ndnperf.Library.Threads
import Ndnperf.Library.Transition

namespace Library.Tickets

open Library.Transition Library.Threads

/-! Places in a row are offered one by one, and threads claim them in order.
Before a claim a thread draws a ticket; it claims only if the tickets drawn
before its own, without those that it saw handed back, are fewer than the
places, and otherwise it hands its ticket back. -/

/-- Where a thread is, with the values that it has read. -/
inductive Place where
  | away
  | start
  | sawTail (tail : Nat)
  | sawReturned (tail returned : Nat)
  | draw (returned : Nat)
  | decide (returned ticket : Nat)
  | handBack
  | claim
  | claimed (index : Nat)
deriving DecidableEq, Repr

/-- The four counters. `admitted` and `refused` record what was decided about each ticket. -/
structure State (Thread : Type) where
  tail : Nat
  drawn : Nat
  returned : Nat
  head : Nat
  admitted : Finset Nat
  refused : Finset Nat
  places : Thread → Place

variable {Thread : Type} [DecidableEq Thread]

def State.initial : State Thread where
  tail := 0
  drawn := 0
  returned := 0
  head := 0
  admitted := ∅
  refused := ∅
  places _ := .away

def State.threadAt (state : State Thread) (thread : Thread) (place : Place) : State Thread :=
  { state with places := Function.update state.places thread place }

inductive Label (Thread : Type) where
  | offer
  | enter (thread : Thread)
  | move (thread : Thread)
  | leave (thread : Thread)

def advance (state : State Thread) (thread : Thread) : Option (State Thread) :=
  match state.places thread with
  | .away | .claimed _ => none
  | .start => some (state.threadAt thread (.sawTail state.tail))
  | .sawTail tail => some (state.threadAt thread (.sawReturned tail state.returned))
  | .sawReturned tail returned =>
      some (state.threadAt thread (if state.drawn - returned < tail then .draw returned else .away))
  | .draw returned =>
      some ({ state with drawn := state.drawn + 1 }.threadAt thread (.decide returned state.drawn))
  | .decide returned ticket =>
      if ticket - returned < state.tail then
        some ({ state with admitted := insert ticket state.admitted }.threadAt thread .claim)
      else some ({ state with refused := insert ticket state.refused }.threadAt thread .handBack)
  | .handBack => some ({ state with returned := state.returned + 1 }.threadAt thread .away)
  | .claim => some ({ state with head := state.head + 1 }.threadAt thread (.claimed state.head))

def step (state : State Thread) : Label Thread → Option (State Thread)
  | .offer => some { state with tail := state.tail + 1 }
  | .enter thread => if state.places thread = .away then some (state.threadAt thread .start) else none
  | .move thread => advance state thread
  | .leave thread =>
      match state.places thread with
      | .claimed _ => some (state.threadAt thread .away)
      | _ => none

def system : System (State Thread) (Label Thread) where
  start state := state = .initial
  step := step

/-! ## The invariant -/

def below (tickets : Finset Nat) (ticket : Nat) : Nat := (tickets.filter (· < ticket)).card

theorem below_insert_le (tickets : Finset Nat) (ticket other : Nat) :
    below tickets ticket ≤ below (insert other tickets) ticket :=
  Finset.card_le_card (Finset.filter_subset_filter _ (Finset.subset_insert _ _))

theorem below_le (tickets : Finset Nat) (ticket : Nat) : below tickets ticket ≤ ticket := by
  have within : tickets.filter (· < ticket) ⊆ Finset.range ticket :=
    fun other member => Finset.mem_range.mpr (Finset.mem_filter.mp member).2
  have bound := Finset.card_le_card within
  rwa [Finset.card_range] at bound

theorem below_eq_card {tickets : Finset Nat} {bound : Nat} (all : ∀ ticket ∈ tickets, ticket < bound) :
    below tickets bound = tickets.card :=
  congrArg Finset.card (Finset.filter_true_of_mem all)

/-- What a thread knows where it is. -/
def Knows (state : State Thread) : Place → Prop
  | .sawTail tail => tail ≤ state.tail
  | .sawReturned tail returned => tail ≤ state.tail ∧ returned ≤ state.returned
  | .draw returned => returned ≤ state.returned
  | .decide returned ticket =>
      ticket < state.drawn ∧ ticket ∉ state.admitted ∧ ticket ∉ state.refused ∧ returned ≤ below state.refused ticket
  | .claimed index => index < state.head
  | .away | .start | .handBack | .claim => True

/-- Two threads never have the same ticket or the same place. -/
def Place.Apart : Place → Place → Prop
  | .decide _ ticket, .decide _ other => ticket ≠ other
  | .claimed index, .claimed other => index ≠ other
  | _, _ => True

def Place.Decides (place : Place) : Prop := ∃ returned ticket, place = .decide returned ticket

instance : DecidablePred Place.Decides
  | .decide returned ticket => .isTrue ⟨returned, ticket, rfl⟩
  | .away | .start | .sawTail _ | .sawReturned _ _ | .draw _ | .handBack | .claim | .claimed _ => .isFalse nofun

theorem Place.Apart.symm {place other : Place} (apart : place.Apart other) : other.Apart place := by
  cases place <;> cases other <;> first | exact trivial | exact Ne.symm apart

/-- A place where nothing is claimed or decided. -/
def Place.Free : Place → Prop
  | .decide _ _ | .claimed _ => False
  | _ => True

theorem Place.Free.apart {place : Place} (free : place.Free) (other : Place) : place.Apart other := by
  cases place <;> first | exact trivial | exact free.elim

variable {before after state : State Thread} {thread : Thread} {place : Place}

theorem apart_update (apart : ∀ thread other, thread ≠ other → (before.places thread).Apart (before.places other))
    (own : ∀ other, other ≠ thread → place.Apart (before.places other)) (first second : Thread)
    (different : first ≠ second) :
    (Function.update before.places thread place first).Apart (Function.update before.places thread place second) := by
  by_cases same : first = thread
  · subst same
    rw [Function.update_self, Function.update_of_ne different.symm]
    exact own second different.symm
  · rw [Function.update_of_ne same]
    by_cases equal : second = thread
    · subst equal
      rw [Function.update_self]
      exact (own first same).symm
    · rw [Function.update_of_ne equal]
      exact apart first second different

/-- What the counters and the tickets of another state may differ in without
taking from what a thread knows. -/
structure Grows (before after : State Thread) (place : Place) : Prop where
  tail : before.tail ≤ after.tail
  drawn : before.drawn ≤ after.drawn
  returned : before.returned ≤ after.returned
  head : before.head ≤ after.head
  refused : before.refused ⊆ after.refused
  undecided : ∀ returned ticket, place = .decide returned ticket →
    (ticket ∈ after.admitted → ticket ∈ before.admitted) ∧ (ticket ∈ after.refused → ticket ∈ before.refused)

omit [DecidableEq Thread] in
theorem Grows.knows (grows : Grows before after place) (knows : Knows before place) : Knows after place := by
  cases place with
  | away | start | handBack | claim => trivial
  | sawTail tail => exact Nat.le_trans knows grows.tail
  | sawReturned tail returned => exact ⟨Nat.le_trans knows.1 grows.tail, Nat.le_trans knows.2 grows.returned⟩
  | draw returned => exact Nat.le_trans knows grows.returned
  | decide returned ticket =>
      obtain ⟨drawn, unadmitted, unrefused, seen⟩ := knows
      obtain ⟨admitted, refused⟩ := grows.undecided returned ticket rfl
      exact ⟨Nat.lt_of_lt_of_le drawn grows.drawn, fun member => unadmitted (admitted member),
        fun member => unrefused (refused member),
        Nat.le_trans seen (Finset.card_le_card (Finset.filter_subset_filter _ grows.refused))⟩
  | claimed index => exact Nat.lt_of_lt_of_le knows grows.head

theorem knows_update (knows : ∀ other, Knows before (before.places other))
    (grows : ∀ other, other ≠ thread → Grows before after (before.places other)) (own : Knows after place)
    (other : Thread) :
    Knows after (Function.update before.places thread place other) := by
  by_cases same : other = thread
  · subst same
    rwa [Function.update_self]
  · rw [Function.update_of_ne same]
    exact (grows other same).knows (knows other)

variable [Fintype Thread]

structure Sound (state : State Thread) : Prop where
  drawn : ∀ ticket ∈ state.admitted ∪ state.refused, ticket < state.drawn
  disjoint : Disjoint state.admitted state.refused
  knows : ∀ thread, Knows state (state.places thread)
  apart : ∀ thread other, thread ≠ other → (state.places thread).Apart (state.places other)
  within : ∀ ticket ∈ state.admitted, ticket < state.tail + below state.refused ticket
  returned : state.returned + threadsAt (· = .handBack) state.places = state.refused.card
  head : state.head + threadsAt (· = .claim) state.places = state.admitted.card
  tickets : state.drawn = state.admitted.card + state.refused.card + threadsAt Place.Decides state.places

/-- What has to be shown of a step of one thread: what its counters and
tickets are about, and that the three counts stay in balance. -/
theorem Sound.moved (sound : Sound before) (after : State Thread) (place : Place)
    (places : after.places = Function.update before.places thread place)
    (drawn : ∀ ticket ∈ after.admitted ∪ after.refused, ticket < after.drawn)
    (disjoint : Disjoint after.admitted after.refused)
    (within : ∀ ticket ∈ after.admitted, ticket < after.tail + below after.refused ticket)
    (grows : ∀ other, other ≠ thread → Grows before after (before.places other)) (own : Knows after place)
    (apart : ∀ other, other ≠ thread → place.Apart (before.places other))
    (returned : after.returned + before.refused.card + (if place = .handBack then 1 else 0) =
      before.returned + after.refused.card + if before.places thread = .handBack then 1 else 0)
    (head : after.head + before.admitted.card + (if place = .claim then 1 else 0) =
      before.head + after.admitted.card + if before.places thread = .claim then 1 else 0)
    (tickets : after.drawn + before.admitted.card + before.refused.card +
      (if (before.places thread).Decides then 1 else 0) =
      before.drawn + after.admitted.card + after.refused.card + if place.Decides then 1 else 0) : Sound after := by
  have decides := threadsAt_update Place.Decides before.places thread place
  have handBack := threadsAt_update (· = .handBack) before.places thread place
  have claims := threadsAt_update (· = .claim) before.places thread place
  obtain ⟨_, _, knows, others, _, handed, claimed, issued⟩ := sound
  refine ⟨drawn, disjoint, ?_, ?_, within, ?_, ?_, ?_⟩
  · rw [places]
    exact knows_update knows grows own
  · rw [places]
    exact apart_update others apart
  · rw [places]
    omega
  · rw [places]
    omega
  · rw [places]
    omega

/-- The thread goes to a place where it has neither a ticket nor a claim. -/
theorem Sound.threadAt (sound : Sound before)
    (here : ¬(before.places thread).Decides ∧ before.places thread ≠ .handBack ∧ before.places thread ≠ .claim)
    (there : place.Free ∧ place ≠ .handBack ∧ place ≠ .claim) (own : Knows before place) :
    Sound (before.threadAt thread place) := by
  have undecided : ¬place.Decides := by
    intro decides
    obtain ⟨_, _, rfl⟩ := decides
    exact there.1
  refine sound.moved (before.threadAt thread place) place rfl sound.drawn sound.disjoint sound.within
    (fun other _ => ?_) own (fun other _ => there.1.apart _) ?_ ?_ ?_
  · exact ⟨Nat.le_refl _, Nat.le_refl _, Nat.le_refl _, Nat.le_refl _, Finset.Subset.refl _, fun _ _ _ => ⟨id, id⟩⟩
  · rw [if_neg there.2.1, if_neg here.2.1]
    rfl
  · rw [if_neg there.2.2, if_neg here.2.2]
    rfl
  · rw [if_neg here.1, if_neg undecided]
    rfl

omit [DecidableEq Thread] in
theorem Sound.offer (sound : Sound before) : Sound { before with tail := before.tail + 1 } := by
  obtain ⟨drawn, disjoint, knows, apart, within, returned, head, tickets⟩ := sound
  refine ⟨drawn, disjoint, fun thread => ?_, apart, fun ticket member => ?_, returned, head, tickets⟩
  · have grows : Grows before { before with tail := before.tail + 1 } (before.places thread) :=
      ⟨Nat.le_succ _, Nat.le_refl _, Nat.le_refl _, Nat.le_refl _, Finset.Subset.refl _, fun _ _ _ => ⟨id, id⟩⟩
    exact grows.knows (knows thread)
  · have bound := within ticket member
    dsimp only
    omega

theorem Sound.draw (sound : Sound before) {returned : Nat} (here : before.places thread = .draw returned) :
    Sound ({ before with drawn := before.drawn + 1 }.threadAt thread (.decide returned before.drawn)) := by
  have own := sound.knows thread
  rw [here] at own
  have unadmitted : before.drawn ∉ before.admitted :=
    fun member => Nat.lt_irrefl _ (sound.drawn _ (Finset.mem_union_left _ member))
  have unrefused : before.drawn ∉ before.refused :=
    fun member => Nat.lt_irrefl _ (sound.drawn _ (Finset.mem_union_right _ member))
  have seen : returned ≤ below before.refused before.drawn := by
    rw [below_eq_card fun ticket member => sound.drawn ticket (Finset.mem_union_right _ member)]
    exact Nat.le_trans own (Nat.le.intro sound.returned)
  refine sound.moved _ (.decide returned before.drawn) rfl
    (fun ticket member => Nat.lt_succ_of_lt (sound.drawn ticket member)) sound.disjoint sound.within (fun other _ => ?_)
    ⟨Nat.lt_succ_self _, unadmitted, unrefused, seen⟩ (fun other _ => ?_) ?_ ?_ ?_
  · exact ⟨Nat.le_refl _, Nat.le_succ _, Nat.le_refl _, Nat.le_refl _, Finset.Subset.refl _, fun _ _ _ => ⟨id, id⟩⟩
  · have bound := sound.knows other
    cases place : before.places other with
    | decide seen ticket =>
        rw [place] at bound
        exact (Nat.ne_of_lt bound.1).symm
    | away | start | sawTail | sawReturned | draw | handBack | claim | claimed => trivial
  · simp [here, State.threadAt]
  · simp [here, State.threadAt]
  · simp [here, State.threadAt, Place.Decides]
    omega

omit [DecidableEq Thread] in
/-- A ticket that some thread has to decide about is nobody else's. -/
theorem Sound.undecided (sound : Sound before) {returned ticket : Nat}
    (here : before.places thread = .decide returned ticket) {other : Thread} (different : other ≠ thread)
    {seen third : Nat} (there : before.places other = .decide seen third) :
    third ≠ ticket := by
  have apart := sound.apart other thread different
  rwa [here, there] at apart

theorem Sound.admit (sound : Sound before) {returned ticket : Nat}
    (here : before.places thread = .decide returned ticket) (few : ticket - returned < before.tail) :
    Sound ({ before with admitted := insert ticket before.admitted }.threadAt thread .claim) := by
  have own := sound.knows thread
  rw [here] at own
  obtain ⟨issued, unadmitted, unrefused, seen⟩ := own
  have more := Finset.card_insert_of_notMem unadmitted
  refine sound.moved _ .claim rfl (fun other member => ?_) ?_ (fun other member => ?_) (fun other different => ?_)
    trivial (fun other _ => trivial) ?_ ?_ ?_
  · rcases Finset.mem_union.mp member with admitted | refused
    · rcases Finset.mem_insert.mp admitted with rfl | admitted
      · exact issued
      · exact sound.drawn other (Finset.mem_union_left _ admitted)
    · exact sound.drawn other (Finset.mem_union_right _ refused)
  · exact Finset.disjoint_insert_left.mpr ⟨unrefused, sound.disjoint⟩
  · rcases Finset.mem_insert.mp member with rfl | admitted
    · simp only [State.threadAt]
      omega
    · exact sound.within other admitted
  · refine ⟨Nat.le_refl _, Nat.le_refl _, Nat.le_refl _, Nat.le_refl _, Finset.Subset.refl _,
      fun seen third there => ⟨?_, id⟩⟩
    exact fun member => (Finset.mem_insert.mp member).resolve_left (sound.undecided here different there)
  · simp [here, State.threadAt]
  · simp [here, State.threadAt, more]
    omega
  · simp [here, State.threadAt, Place.Decides, more]
    omega

theorem Sound.refuse (sound : Sound before) {returned ticket : Nat}
    (here : before.places thread = .decide returned ticket) :
    Sound ({ before with refused := insert ticket before.refused }.threadAt thread .handBack) := by
  have own := sound.knows thread
  rw [here] at own
  obtain ⟨issued, unadmitted, unrefused, seen⟩ := own
  have more := Finset.card_insert_of_notMem unrefused
  refine sound.moved _ .handBack rfl (fun other member => ?_) ?_ (fun other member => ?_) (fun other different => ?_)
    trivial (fun other _ => trivial) ?_ ?_ ?_
  · rcases Finset.mem_union.mp member with admitted | refused
    · exact sound.drawn other (Finset.mem_union_left _ admitted)
    · rcases Finset.mem_insert.mp refused with rfl | refused
      · exact issued
      · exact sound.drawn other (Finset.mem_union_right _ refused)
  · exact Finset.disjoint_insert_right.mpr ⟨unadmitted, sound.disjoint⟩
  · exact Nat.lt_of_lt_of_le (sound.within other member) (Nat.add_le_add_left (below_insert_le _ _ _) _)
  · refine ⟨Nat.le_refl _, Nat.le_refl _, Nat.le_refl _, Nat.le_refl _, Finset.subset_insert _ _,
      fun seen third there => ⟨id, ?_⟩⟩
    exact fun member => (Finset.mem_insert.mp member).resolve_left (sound.undecided here different there)
  · simp [here, State.threadAt, more]
    omega
  · simp [here, State.threadAt]
  · simp [here, State.threadAt, Place.Decides, more]
    omega

theorem Sound.handBack (sound : Sound before) (here : before.places thread = .handBack) :
    Sound ({ before with returned := before.returned + 1 }.threadAt thread .away) := by
  refine sound.moved _ .away rfl sound.drawn sound.disjoint sound.within (fun other _ => ?_) trivial
    (fun other _ => trivial) ?_ ?_ ?_
  · exact ⟨Nat.le_refl _, Nat.le_refl _, Nat.le_succ _, Nat.le_refl _, Finset.Subset.refl _, fun _ _ _ => ⟨id, id⟩⟩
  · simp [here, State.threadAt]
    omega
  · simp [here, State.threadAt]
  · simp [here, State.threadAt, Place.Decides]

theorem Sound.claim (sound : Sound before) (here : before.places thread = .claim) :
    Sound ({ before with head := before.head + 1 }.threadAt thread (.claimed before.head)) := by
  refine sound.moved _ (.claimed before.head) rfl sound.drawn sound.disjoint sound.within (fun other _ => ?_)
    (Nat.lt_succ_self _) (fun other _ => ?_) ?_ ?_ ?_
  · exact ⟨Nat.le_refl _, Nat.le_refl _, Nat.le_refl _, Nat.le_succ _, Finset.Subset.refl _, fun _ _ _ => ⟨id, id⟩⟩
  · have bound := sound.knows other
    cases place : before.places other with
    | claimed index =>
        rw [place] at bound
        exact (Nat.ne_of_lt bound).symm
    | away | start | sawTail | sawReturned | draw | handBack | claim | decide => trivial
  · simp [here, State.threadAt]
  · simp [here, State.threadAt]
    omega
  · simp [here, State.threadAt, Place.Decides]

omit [DecidableEq Thread] in
theorem sound_initial : Sound (State.initial : State Thread) := by
  refine ⟨nofun, Finset.disjoint_empty_left _, fun _ => trivial, fun _ _ _ => trivial, nofun, ?_, ?_, ?_⟩
  · simp [State.initial, threadsAt]
  · simp [State.initial, threadsAt]
  · simp [State.initial, threadsAt, Place.Decides]

theorem Sound.advance (sound : Sound before) (moved : Tickets.advance before thread = some after) : Sound after := by
  have own := sound.knows thread
  cases here : before.places thread with
  | away | claimed => simp only [Tickets.advance, here, reduceCtorEq] at moved
  | start =>
      simp only [Tickets.advance, here, Option.some.injEq] at moved
      exact moved ▸ sound.threadAt (by simp [here, Place.Decides]) (by simp [Place.Free]) (Nat.le_refl _)
  | sawTail tail =>
      rw [here] at own
      simp only [Tickets.advance, here, Option.some.injEq] at moved
      exact moved ▸ sound.threadAt (by simp [here, Place.Decides]) (by simp [Place.Free]) ⟨own, Nat.le_refl _⟩
  | sawReturned tail returned =>
      rw [here] at own
      simp only [Tickets.advance, here, Option.some.injEq] at moved
      subst moved
      split
      · exact sound.threadAt (by simp [here, Place.Decides]) (by simp [Place.Free]) own.2
      · exact sound.threadAt (by simp [here, Place.Decides]) (by simp [Place.Free]) trivial
  | draw returned =>
      simp only [Tickets.advance, here, Option.some.injEq] at moved
      exact moved ▸ sound.draw here
  | decide returned ticket =>
      simp only [Tickets.advance, here] at moved
      split at moved
      · rename_i few
        exact Option.some.inj moved ▸ sound.admit here few
      · exact Option.some.inj moved ▸ sound.refuse here
  | handBack =>
      simp only [Tickets.advance, here, Option.some.injEq] at moved
      exact moved ▸ sound.handBack here
  | claim =>
      simp only [Tickets.advance, here, Option.some.injEq] at moved
      exact moved ▸ sound.claim here

theorem sound_inductive : (system : System (State Thread) (Label Thread)).Inductive Sound := by
  constructor
  · intro state initial
    rw [show state = .initial from initial]
    exact sound_initial
  · intro before label after sound moved
    cases label with
    | offer => exact Option.some.inj moved ▸ sound.offer
    | enter thread =>
        obtain ⟨outside, entered⟩ := Option.ite_none_right_eq_some.mp moved
        exact Option.some.inj entered ▸ sound.threadAt (by simp [outside, Place.Decides]) (by simp [Place.Free]) trivial
    | move thread => exact sound.advance moved
    | leave thread =>
        cases here : before.places thread with
        | claimed index =>
            simp only [system, step, here, Option.some.injEq] at moved
            exact moved ▸ sound.threadAt (by simp [here, Place.Decides]) (by simp [Place.Free]) trivial
        | away | start | sawTail | sawReturned | draw | decide | handBack | claim =>
            simp only [system, step, here, reduceCtorEq] at moved

/-! ## What is claimed -/

omit [DecidableEq Thread] in
/-- The latest ticket that was admitted left room for all the others. -/
theorem Sound.admitted_le (sound : Sound state) : state.admitted.card ≤ state.tail := by
  rcases state.admitted.eq_empty_or_nonempty with none | some
  · simp [none]
  · have latest := state.admitted.max'_mem some
    have room := sound.within _ latest
    have together : state.admitted ∪ state.refused.filter (· < state.admitted.max' some) ⊆
        Finset.range (state.admitted.max' some + 1) := by
      intro ticket member
      rcases Finset.mem_union.mp member with admitted | refused
      · exact Finset.mem_range.mpr (Nat.lt_succ_of_le (state.admitted.le_max' ticket admitted))
      · exact Finset.mem_range.mpr (Nat.lt_succ_of_lt (Finset.mem_filter.mp refused).2)
    have apart : Disjoint state.admitted (state.refused.filter (· < state.admitted.max' some)) :=
      Finset.disjoint_of_subset_right (Finset.filter_subset _ _) sound.disjoint
    have count := Finset.card_le_card together
    rw [Finset.card_union_of_disjoint apart, Finset.card_range] at count
    simp only [below] at room
    omega

omit [DecidableEq Thread] in
theorem Sound.head_le (sound : Sound state) : state.head ≤ state.tail :=
  Nat.le_trans (Nat.le.intro sound.head) sound.admitted_le

omit [DecidableEq Thread] in
theorem Sound.returned_le (sound : Sound state) : state.returned ≤ state.drawn := by
  have returned := sound.returned
  have tickets := sound.tickets
  omega

omit [DecidableEq Thread] in
/-- A thread that is about to claim finds a place that has been offered. -/
theorem Sound.head_lt (sound : Sound state) (here : state.places thread = .claim) : state.head < state.tail := by
  have claiming := threadsAt_pos (· = Place.claim) here
  have head := sound.head
  have room := sound.admitted_le
  omega

omit [DecidableEq Thread] in
theorem Sound.claimed_lt (sound : Sound state) {index : Nat} (here : state.places thread = .claimed index) :
    index < state.head := by
  have own := sound.knows thread
  rwa [here] at own

omit [DecidableEq Thread] in
theorem Sound.claimed_inj (sound : Sound state) {other : Thread} {index : Nat}
    (here : state.places thread = .claimed index) (there : state.places other = .claimed index) : thread = other := by
  by_contra different
  have apart := sound.apart thread other different
  rw [here, there] at apart
  exact apart rfl

/-- A ticket that is neither used nor handed back. -/
def Place.Holds (place : Place) : Prop := place.Decides ∨ place = .handBack ∨ place = .claim

instance : DecidablePred Place.Holds := fun place =>
    inferInstanceAs (Decidable (place.Decides ∨ place = .handBack ∨ place = .claim))

omit [DecidableEq Thread] in
theorem threadsAt_holds (places : Thread → Place) :
    threadsAt Place.Holds places =
      threadsAt Place.Decides places + threadsAt (· = .handBack) places + threadsAt (· = .claim) places := by
  simp only [threadsAt, Finset.card_filter, ← Finset.sum_add_distrib]
  refine Finset.sum_congr rfl fun thread _ => ?_
  cases here : places thread with
  | decide returned ticket =>
      have decides : (Place.decide returned ticket).Decides := ⟨returned, ticket, rfl⟩
      simp [Place.Holds, decides]
  | away | start | sawTail | sawReturned | draw | handBack | claim | claimed => simp [Place.Holds, Place.Decides]

omit [DecidableEq Thread] in
/-- The tickets that were drawn are claims, were handed back, or are still held. -/
theorem Sound.drawn_eq (sound : Sound state) :
    state.drawn = state.head + state.returned + threadsAt Place.Holds state.places := by
  have head := sound.head
  have returned := sound.returned
  have tickets := sound.tickets
  rw [threadsAt_holds]
  omega

end Library.Tickets

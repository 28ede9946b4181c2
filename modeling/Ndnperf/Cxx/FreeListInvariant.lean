import Mathlib.Data.List.Nodup
import Ndnperf.Library.Threads
import Ndnperf.Cxx.FreeList

namespace Ndnperf.Cxx.FreeList

open Library.Threads Library.Transition Library.Word

variable {Thread Node : Type}

/-! ## Where a node is -/

/-- What the thread that has a node is doing with it. -/
inductive Stage where
  | adding
  | preparing
  | pushing
  | popped

/-- With the callers; to be added by the thread that returns its last
reference; in the list; or with one thread. -/
inductive Place (Thread : Type) where
  | out
  | waiting
  | listed
  | held (thread : Thread) (stage : Stage)

/-- `freeListRefs` of a node there, without the references that threads have taken. -/
def Place.refs : Place Thread → Nat
  | .out | .held _ .adding => 0
  | .waiting | .held _ .preparing => shouldBeOnFreelist
  | .listed | .held _ .pushing => 1
  | .held _ .popped => 2

theorem Place.refs_le (place : Place Thread) : place.refs ≤ 2 ^ 31 := by
  cases place with
  | out | waiting | listed => simp [Place.refs, shouldBeOnFreelist]
  | held thread stage => cases stage <;> simp [Place.refs, shouldBeOnFreelist]

/-- The node that a thread has, and what it does with it. -/
def Pc.claims : Pc Node → Option (Node × Stage)
  | .addRefs node => some (node, .adding)
  | .loadHead node _ | .storeNext node _ _ | .storeRefs node _ _ => some (node, .preparing)
  | .pushHead node _ _ | .restoreRefs node _ _ => some (node, .pushing)
  | .checkRefs head | .dropRefs head => some (head, .popped)
  | .outside _ | .getHead | .loadRefs _ | .takeRef _ _ | .loadNext _ | .popHead _ _ | .returnRef _ _ => none

/-- The node to which a thread has taken a reference. -/
def Pc.holds : Pc Node → Option Node
  | .loadNext head | .popHead head _ | .returnRef head _ => some head
  | _ => none

/-- What a thread knows of the next node, or of the references that it has read. -/
def Pc.Knows (freeListNext : Node → Option Node) : Pc Node → Prop
  | .storeRefs node head _ | .pushHead node head _ => freeListNext node = head
  | .popHead head next => freeListNext head = next
  | .takeRef _ refs => refs &&& refsMask ≠ 0
  | _ => True

/-- The nodes from a head on. -/
def Chain (freeListNext : Node → Option Node) : Option Node → List Node → Prop
  | head, [] => head = none
  | head, node :: rest => head = some node ∧ Chain freeListNext (freeListNext node) rest

theorem Chain.congr {freeListNext changed : Node → Option Node} {head : Option Node} {list : List Node}
    (chain : Chain freeListNext head list) (same : ∀ node ∈ list, changed node = freeListNext node) :
    Chain changed head list := by
  induction list generalizing head with
  | nil => exact chain
  | cons node rest ih =>
      obtain ⟨first, others⟩ := List.forall_mem_cons.mp same
      refine ⟨chain.1, ?_⟩
      rw [first]
      exact ih chain.2 others

variable [Fintype Thread] [DecidableEq Node]

def State.holders (state : State Thread Node) (node : Node) : Nat := threadsAt
    (fun pc : Pc Node => pc.holds = some node) state.pcs

/-- Every node is at one place, and is counted as it is there. -/
structure Placed (state : State Thread Node) (places : Node → Place Thread) (list : List Node) : Prop where
  failed : state.failed = false
  chain : Chain state.freeListNext state.freeListHead list
  nodup : list.Nodup
  listed : ∀ node, node ∈ list ↔ places node = .listed
  held : ∀ thread node stage, (state.pcs thread).claims = some (node, stage) ↔ places node = .held thread stage
  refs : ∀ node, state.freeListRefs node = (places node).refs + state.holders node
  waiting : ∀ node, places node = .waiting → 0 < state.holders node
  preparing : ∀ node thread, places node = .held thread .preparing → state.holders node = 0
  knows : ∀ thread, (state.pcs thread).Knows state.freeListNext
  out : ∀ node, state.out node = true ↔ places node = .out

def Sound (state : State Thread Node) : Prop := ∃ places list, Placed state places list

variable {before after state : State Thread Node} {places : Node → Place Thread} {list : List Node} {thread : Thread}
  {node : Node} {pc : Pc Node} [DecidableEq Thread]

theorem holders_update (pcs : after.pcs = Function.update before.pcs thread pc) (node : Node) :
    after.holders node + (if (before.pcs thread).holds = some node then 1 else 0) =
      before.holders node + if pc.holds = some node then 1 else 0 := by
  rw [State.holders, pcs]
  exact threadsAt_update (fun pc : Pc Node => pc.holds = some node) before.pcs thread pc

omit [DecidableEq Thread] in
theorem holders_le (state : State Thread Node) (node : Node) : state.holders node ≤ Fintype.card Thread :=
    threadsAt_le_card _ _

omit [DecidableEq Thread] in
theorem holders_pos (holds : (state.pcs thread).holds = some node) : 0 < state.holders node :=
  threadsAt_pos (fun pc : Pc Node => pc.holds = some node) holds

/-! ## Steps that leave each node where it is -/

/-- Only the next node of one that this thread prepares may change. -/
theorem Placed.recounted (placed : Placed before places list) (pcs : after.pcs = Function.update before.pcs thread pc)
    (claims : pc.claims = (before.pcs thread).claims) (failed : after.failed = false)
    (head : after.freeListHead = before.freeListHead)
    (next : ∀ node, after.freeListNext node ≠ before.freeListNext node → places node = .held thread .preparing)
    (refs : ∀ node, after.freeListRefs node + before.holders node = before.freeListRefs node + after.holders node)
    (waiting : ∀ node, places node = .waiting → 0 < after.holders node)
    (preparing : ∀ node other, places node = .held other .preparing → after.holders node = 0)
    (knows : pc.Knows after.freeListNext) (out : after.out = before.out) : Placed after places list := by
  have kept : ∀ {node}, places node ≠ .held thread .preparing → after.freeListNext node = before.freeListNext node :=
    fun elsewhere => by_contra fun changed => elsewhere (next _ changed)
  refine ⟨failed, ?_, placed.nodup, placed.listed, fun other node stage => ?_, fun node => ?_, waiting, preparing,
    fun other => ?_,
    fun node => ?_⟩
  · rw [head]
    refine placed.chain.congr fun node member => kept ?_
    rw [(placed.listed node).mp member]
    intro same
    cases same
  · rw [pcs]
    by_cases same : other = thread
    · rw [same, Function.update_self, claims]
      exact placed.held thread node stage
    · rw [Function.update_of_ne same]
      exact placed.held other node stage
  · have counted := placed.refs node
    have moved := refs node
    omega
  · rw [pcs]
    by_cases same : other = thread
    · rw [same, Function.update_self]
      exact knows
    · have known := placed.knows other
      rw [Function.update_of_ne same]
      cases here : before.pcs other with
      | storeRefs node _ _ =>
          rw [here] at known
          refine (kept fun prepared => ?_).trans known
          have own := (placed.held other node _).mp (congrArg Pc.claims here)
          rw [prepared] at own
          cases own
          exact same rfl
      | pushHead node _ _ =>
          rw [here] at known
          refine (kept fun prepared => ?_).trans known
          have own := (placed.held other node _).mp (congrArg Pc.claims here)
          rw [prepared] at own
          cases own
      | popHead node _ =>
          rw [here] at known
          refine (kept fun prepared => ?_).trans known
          have none := placed.preparing node thread prepared
          have some := holders_pos (congrArg Pc.holds here)
          omega
      | takeRef =>
          rw [here] at known
          exact known
      | outside | addRefs | loadHead | storeNext | restoreRefs | getHead | loadRefs | loadNext | checkRefs
      | dropRefs | returnRef =>
          trivial
  · rw [out]
    exact placed.out node

/-- A thread goes on with what it has. -/
theorem Placed.stays (placed : Placed before places list) (claims : pc.claims = (before.pcs thread).claims)
    (holds : pc.holds = (before.pcs thread).holds) (knows : pc.Knows before.freeListNext) :
    Placed (before.threadAt thread pc) places list := by
  have same : ∀ node, (before.threadAt thread pc).holders node = before.holders node := by
    intro node
    have moved : (before.threadAt thread pc).holders node + _ = before.holders node + _ := holders_update rfl node
    rw [holds] at moved
    exact Nat.add_right_cancel moved
  refine placed.recounted rfl claims placed.failed rfl (fun _ changed => absurd rfl changed) (fun node => ?_)
    (fun node => ?_) (fun node other => ?_) knows rfl
  · rw [same]
    rfl
  · rw [same]
    exact placed.waiting node
  · rw [same]
    exact placed.preparing node other

/-! ## Steps that move a node -/

/-- What a thread that deals with a node has to do with its place. -/
inductive Takes (thread : Thread) (node : Node) (pc : Pc Node) : Place Thread → Prop where
  | keeps {stage : Stage} (claims : pc.claims = some (node, stage)) : Takes thread node pc (.held thread stage)
  | gives {place : Place Thread} (claims : pc.claims = none) (free : ∀ other stage, place ≠ .held other stage) :
      Takes thread node pc place

variable {place : Place Thread}

omit [Fintype Thread] [DecidableEq Node] [DecidableEq Thread] in
theorem Takes.same (takes : Takes thread node pc place) {other : Node} {stage : Stage}
    (claims : pc.claims = some (other, stage)) :
    other = node := by
  cases takes with
  | keeps own =>
      rw [own] at claims
      cases claims
      rfl
  | gives own free =>
      rw [own] at claims
      cases claims

omit [Fintype Thread] [DecidableEq Node] [DecidableEq Thread] in
theorem Takes.mine (takes : Takes thread node pc place) {other : Thread} {stage : Stage}
    (held : place = .held other stage) :
    other = thread := by
  cases takes with
  | keeps own =>
      cases held
      rfl
  | gives own free => exact absurd held (free _ _)

omit [Fintype Thread] [DecidableEq Node] [DecidableEq Thread] in
theorem Takes.own (takes : Takes thread node pc place) (stage : Stage) : pc.claims = some (node, stage) ↔ place =
    .held thread stage := by
  cases takes with
  | keeps own =>
      rw [own]
      constructor <;> intro same <;> cases same <;> rfl
  | gives own free =>
      rw [own]
      exact iff_of_false (Option.some_ne_none _).symm (free _ _)

theorem Placed.moved {shown : List Node} (placed : Placed before places list)
    (pcs : after.pcs = Function.update before.pcs thread pc)
    (old : Takes thread node (before.pcs thread) (places node)) (new : Takes thread node pc place)
    (held : ∀ other, (before.pcs thread).holds = some other → other = node)
    (holds : ∀ other, pc.holds = some other → other = node) (failed : after.failed = false)
    (chain : Chain after.freeListNext after.freeListHead shown) (nodup : shown.Nodup)
    (listed : ∀ other, other ∈ shown ↔ Function.update places node place other = .listed)
    (next : after.freeListNext = before.freeListNext)
    (elsewhere : ∀ other, other ≠ node → after.freeListRefs other = before.freeListRefs other)
    (refs : after.freeListRefs node = place.refs + after.holders node)
    (waiting : place = .waiting → 0 < after.holders node)
    (preparing : ∀ other, place = .held other .preparing → after.holders node = 0)
    (knows : pc.Knows after.freeListNext) (away : ∀ other, other ≠ node → after.out other = before.out other)
    (out : after.out node = true ↔ place = .out) :
    Placed after (Function.update places node place) shown := by
  have same : ∀ other, other ≠ node → after.holders other = before.holders other := by
    intro other apart
    have moved := holders_update pcs other
    rwa [if_neg (apart ∘ held other), if_neg (apart ∘ holds other)] at moved
  refine ⟨failed, chain, nodup, listed, fun other second stage => ?_, fun other => ?_, fun other => ?_,
    fun other holder => ?_,
    fun other => ?_, fun other => ?_⟩
  · rw [pcs]
    by_cases here : other = thread
    · subst here
      rw [Function.update_self]
      by_cases equal : second = node
      · rw [equal, Function.update_self]
        exact new.own stage
      · rw [Function.update_of_ne equal, ← placed.held]
        exact iff_of_false (fun claims => equal (new.same claims)) fun claims => equal (old.same claims)
    · rw [Function.update_of_ne here, placed.held]
      by_cases equal : second = node
      · rw [equal, Function.update_self]
        exact iff_of_false (fun held => here (old.mine held)) fun held => here (new.mine held)
      · rw [Function.update_of_ne equal]
  · by_cases equal : other = node
    · rw [equal, Function.update_self]
      exact refs
    · rw [Function.update_of_ne equal, elsewhere other equal, same other equal]
      exact placed.refs other
  · by_cases equal : other = node
    · rw [equal, Function.update_self]
      exact waiting
    · rw [Function.update_of_ne equal, same other equal]
      exact placed.waiting other
  · by_cases equal : other = node
    · rw [equal, Function.update_self]
      exact preparing holder
    · rw [Function.update_of_ne equal, same other equal]
      exact placed.preparing other holder
  · rw [pcs]
    by_cases here : other = thread
    · rw [here, Function.update_self]
      exact knows
    · rw [Function.update_of_ne here, next]
      exact placed.knows other
  · by_cases equal : other = node
    · rw [equal, Function.update_self]
      exact out
    · rw [Function.update_of_ne equal, away other equal]
      exact placed.out other

/-- The list stays as it is. -/
theorem Placed.carries (placed : Placed before places list) (pcs : after.pcs = Function.update before.pcs thread pc)
    (old : Takes thread node (before.pcs thread) (places node)) (new : Takes thread node pc place)
    (held : ∀ other, (before.pcs thread).holds = some other → other = node) (holds : pc.holds = none)
    (unlisted : places node ≠ .listed ∧ place ≠ .listed) (failed : after.failed = before.failed)
    (head : after.freeListHead = before.freeListHead) (next : after.freeListNext = before.freeListNext)
    (elsewhere : ∀ other, other ≠ node → after.freeListRefs other = before.freeListRefs other)
    (refs : after.freeListRefs node = place.refs + after.holders node)
    (waiting : place = .waiting → 0 < after.holders node)
    (preparing : ∀ other, place = .held other .preparing → after.holders node = 0)
    (knows : pc.Knows before.freeListNext) (away : ∀ other, other ≠ node → after.out other = before.out other)
    (out : after.out node = true ↔ place = .out) :
    Placed after (Function.update places node place) list := by
  refine placed.moved pcs old new held (fun other same => ?_) (failed.trans placed.failed) ?_ placed.nodup
    (fun other => ?_) next
    elsewhere refs waiting preparing (next ▸ knows) away out
  · rw [holds] at same
    cases same
  · rw [next, head]
    exact placed.chain
  · rw [placed.listed]
    by_cases same : other = node
    · rw [same, Function.update_self]
      exact iff_of_false unlisted.1 unlisted.2
    · rw [Function.update_of_ne same]

end Ndnperf.Cxx.FreeList

import Ndnperf.Cxx.FreeListInvariant

namespace Ndnperf.Cxx.FreeList

open Library.Threads Library.Transition Library.Word

variable {Thread Node : Type} [Fintype Thread] [DecidableEq Thread] [DecidableEq Node]
  {before after state : State Thread Node}
  {places : Node → Place Thread} {list : List Node} {thread : Thread} {node : Node} {pc : Pc Node}

/-- Where a thread has no node. -/
structure Pc.Free (pc : Pc Node) : Prop where
  claims : pc.claims = none
  holds : pc.holds = none
  knows : ∀ freeListNext, pc.Knows freeListNext

omit [DecidableEq Node] in
theorem Pc.loop_free (head : Option Node) : (Pc.loop head).Free := by
  cases head <;> exact ⟨rfl, rfl, fun _ => trivial⟩

omit [DecidableEq Node] in
theorem Continuation.pc_free (returns : Continuation Node) : returns.pc.Free := by
  cases returns with
  | add => exact ⟨rfl, rfl, fun _ => trivial⟩
  | tryGet head => exact Pc.loop_free head

theorem holders_same (pcs : after.pcs = Function.update before.pcs thread pc) (held : (before.pcs thread).holds = none)
    (holds : pc.holds = none) (node : Node) : after.holders node = before.holders node := by
  have moved := holders_update pcs node
  rw [held, holds] at moved
  exact Nat.add_right_cancel moved

/-- The thread goes on with the node that it has, or gives it away, and leaves the list alone. -/
theorem Placed.passes {stage : Stage} {place : Place Thread} (placed : Placed before places list)
    (claims : (before.pcs thread).claims = some (node, stage)) (held : (before.pcs thread).holds = none)
    (pcs : after.pcs = Function.update before.pcs thread pc) (new : Takes thread node pc place)
    (holds : pc.holds = none) (unlisted : place ≠ .listed) (failed : after.failed = before.failed)
    (head : after.freeListHead = before.freeListHead) (next : after.freeListNext = before.freeListNext)
    (elsewhere : ∀ other, other ≠ node → after.freeListRefs other = before.freeListRefs other)
    (refs : after.freeListRefs node = place.refs + before.holders node)
    (waiting : place = .waiting → 0 < before.holders node)
    (preparing : ∀ other, place = .held other .preparing → before.holders node = 0)
    (knows : pc.Knows before.freeListNext) (away : ∀ other, other ≠ node → after.out other = before.out other)
    (out : after.out node = true ↔ place = .out) :
    Sound after := by
  have own := (placed.held thread node stage).mp claims
  have same := holders_same pcs held holds node
  refine ⟨_, _, placed.carries pcs (own.symm ▸ .keeps claims) new ?_ holds ⟨?_, unlisted⟩ failed head next elsewhere
    (same.symm ▸ refs) (same.symm ▸ waiting) (same.symm ▸ preparing) knows away out⟩
  · rw [held]
    intro other has
    cases has
  · rw [own]
    intro listed
    cases listed

omit [DecidableEq Thread] in
theorem Placed.kept (placed : Placed before places list) {stage : Stage}
    (claims : (before.pcs thread).claims = some (node, stage)) :
    ¬before.out node = true := by
  rw [placed.out, (placed.held thread node stage).mp claims]
  intro out
  cases out

/-! ## `add` -/

theorem Placed.enter (placed : Placed before places list) {result : Option Node}
    (here : before.pcs thread = .outside result) (given : before.out node = true) :
    Sound ({ before with out := Function.update before.out node false }.threadAt thread (.addRefs node)) := by
  have out := (placed.out node).mp given
  have counted := placed.refs node
  rw [out] at counted
  refine ⟨_, _, placed.carries rfl ?_ (.keeps rfl) (by simp [here, Pc.holds]) rfl ⟨by simp [out], by simp⟩ rfl rfl rfl
    (fun _ _ => rfl) ?_ (by simp) (by simp) trivial (fun other apart => Function.update_of_ne apart ..) ?_⟩
  · rw [here, out]
    exact .gives rfl (by simp)
  · rw [holders_same rfl (by rw [here]; rfl) rfl]
    exact counted
  · simp [State.threadAt]

/-- The thread that adds a node to which no thread has a reference is alone with it. -/
theorem Placed.addRefs (few : Fintype.card Thread + 2 < 2 ^ 31) (placed : Placed before places list)
    (here : before.pcs thread = .addRefs node) :
    Sound ((before.fetchAdd node shouldBeOnFreelist).threadAt thread
      (if before.freeListRefs node = 0 then .loadHead node .add else .outside none)) := by
  have claims : (before.pcs thread).claims = some (node, .adding) := congrArg Pc.claims here
  have held : (before.pcs thread).holds = none := congrArg Pc.holds here
  have counted := placed.refs node
  have bound := holders_le before node
  rw [(placed.held thread node _).mp claims] at counted
  simp only [Place.refs, Nat.zero_add] at counted
  have added : (before.fetchAdd node shouldBeOnFreelist).freeListRefs node =
      shouldBeOnFreelist + before.holders node := by
    simp only [State.fetchAdd, State.setRefs, Function.update_self, uint32, shouldBeOnFreelist]
    omega
  have elsewhere : ∀ other, other ≠ node → (before.fetchAdd node shouldBeOnFreelist).freeListRefs other =
      before.freeListRefs other :=
    fun other apart => Function.update_of_ne apart ..
  have kept := placed.kept claims
  split
  · rename_i zero
    exact placed.passes claims held rfl (.keeps rfl) rfl (by simp) rfl rfl rfl elsewhere added (by simp)
      (fun _ _ => by omega) trivial
      (fun _ _ => rfl) (iff_of_false kept (by simp))
  · rename_i some
    exact placed.passes claims held rfl (show Takes thread node (.outside none) .waiting from .gives rfl
      (by simp)) rfl (by simp) rfl rfl rfl elsewhere added
      (fun _ => by omega) (by simp) trivial (fun _ _ => rfl) (iff_of_false kept (by simp))

/-! ## `add_knowing_refcount_is_zero` -/

theorem Placed.storeNext (placed : Placed before places list) {head : Option Node} {returns : Continuation Node}
    (here : before.pcs thread = .storeNext node head returns) :
    Sound ({ before with freeListNext := Function.update before.freeListNext node head }.threadAt thread
      (.storeRefs node head returns)) := by
  have claims : (before.pcs thread).claims = some (node, .preparing) := congrArg Pc.claims here
  have same : ∀ other,
      State.holders ({ before with freeListNext := Function.update before.freeListNext node head }.threadAt thread
        (.storeRefs node head returns)) other = before.holders other :=
    holders_same rfl (congrArg Pc.holds here) rfl
  refine ⟨_, _, placed.recounted rfl claims.symm placed.failed rfl (fun other changed => ?_) (fun other => ?_)
    (fun other => ?_) (fun other holder => ?_) (Function.update_self ..) rfl⟩
  · have equal : other = node := by_contra fun apart => changed (Function.update_of_ne apart ..)
    rw [equal]
    exact (placed.held thread node _).mp claims
  · rw [same]
    rfl
  · rw [same]
    exact placed.waiting other
  · rw [same]
    exact placed.preparing other holder

theorem Placed.storeRefs (placed : Placed before places list) {head : Option Node} {returns : Continuation Node}
    (here : before.pcs thread = .storeRefs node head returns) :
    Sound ((before.setRefs node 1).threadAt thread (.pushHead node head returns)) := by
  have claims : (before.pcs thread).claims = some (node, .preparing) := congrArg Pc.claims here
  have idle := placed.preparing node thread ((placed.held thread node _).mp claims)
  have known := placed.knows thread
  rw [here] at known
  refine placed.passes claims (congrArg Pc.holds here) rfl (.keeps rfl) rfl (by simp) rfl rfl rfl
    (fun other apart => Function.update_of_ne apart ..) ?_ (by simp) (by simp) known (fun _ _ => rfl)
    (iff_of_false (placed.kept claims) (by simp))
  rw [idle]
  exact Function.update_self ..

/-- The node is the head of the list now. -/
theorem Placed.push (placed : Placed before places list) {head : Option Node} {returns : Continuation Node}
    (here : before.pcs thread = .pushHead node head returns) (unchanged : before.freeListHead = head) :
    Sound ({ before with freeListHead := some node }.threadAt thread returns.pc) := by
  have claims : (before.pcs thread).claims = some (node, .pushing) := congrArg Pc.claims here
  have own := (placed.held thread node _).mp claims
  have held : (before.pcs thread).holds = none := congrArg Pc.holds here
  have known := placed.knows thread
  have counted := placed.refs node
  have kept := placed.kept claims
  have free := returns.pc_free
  have unlisted : node ∉ list := by
    rw [placed.listed, own]
    intro same
    cases same
  rw [here] at known
  rw [own] at counted
  refine ⟨_, node :: list, placed.moved rfl (own.symm ▸ .keeps claims)
    (show Takes thread node returns.pc .listed from .gives free.claims (by simp)) (by simp [held])
    (by simp [free.holds]) placed.failed
    ⟨rfl, ?_⟩ (List.nodup_cons.mpr ⟨unlisted, placed.nodup⟩) (fun other => ?_) rfl (fun _ _ => rfl) ?_
      (by simp) (by simp)
    (free.knows _) (fun _ _ => rfl) (iff_of_false kept (by simp))⟩
  · have chain := placed.chain
    rw [unchanged] at chain
    exact known.symm ▸ chain
  · by_cases same : other = node
    · rw [same, Function.update_self]
      exact iff_of_true List.mem_cons_self rfl
    · rw [Function.update_of_ne same, List.mem_cons, or_iff_right same]
      exact placed.listed other
  · rw [holders_same rfl held free.holds]
    exact counted

theorem Placed.restoreRefs (few : Fintype.card Thread + 2 < 2 ^ 31) (placed : Placed before places list)
    {head : Option Node} {returns : Continuation Node} (here : before.pcs thread = .restoreRefs node head returns) :
    Sound ((before.fetchAdd node (shouldBeOnFreelist - 1)).threadAt thread
      (if before.freeListRefs node = 1 then .storeNext node head returns else returns.pc)) := by
  have claims : (before.pcs thread).claims = some (node, .pushing) := congrArg Pc.claims here
  have held : (before.pcs thread).holds = none := congrArg Pc.holds here
  have counted := placed.refs node
  have bound := holders_le before node
  have free := returns.pc_free
  rw [(placed.held thread node _).mp claims] at counted
  simp only [Place.refs] at counted
  have added : (before.fetchAdd node (shouldBeOnFreelist - 1)).freeListRefs node =
      shouldBeOnFreelist + before.holders node := by
    simp only [State.fetchAdd, State.setRefs, Function.update_self, uint32, shouldBeOnFreelist]
    omega
  have elsewhere : ∀ other, other ≠ node →
      (before.fetchAdd node (shouldBeOnFreelist - 1)).freeListRefs other = before.freeListRefs other :=
    fun other apart => Function.update_of_ne apart ..
  have kept := placed.kept claims
  split
  · rename_i one
    exact placed.passes claims held rfl (.keeps rfl) rfl (by simp) rfl rfl rfl elsewhere added (by simp)
      (fun _ _ => by omega) trivial
      (fun _ _ => rfl) (iff_of_false kept (by simp))
  · rename_i more
    exact placed.passes claims held rfl (show Takes thread node returns.pc .waiting from .gives free.claims
      (by simp)) free.holds
      (by simp) rfl rfl rfl elsewhere added (fun _ => by omega) (by simp) (free.knows _) (fun _ _ => rfl)
      (iff_of_false kept (by simp))

/-! ## `try_get` -/

theorem and_refsMask (refs : Nat) : refs &&& refsMask = refs % 2 ^ 31 := Nat.and_two_pow_sub_one_eq_mod refs 31

theorem and_shouldBeOnFreelist {refs : Nat} (small : refs < 2 ^ 31) : refs &&& shouldBeOnFreelist = 0 := by
  have low : (refs &&& 2 ^ 31) % 2 ^ 31 = _ := Nat.and_mod_two_pow
  rwa [Nat.mod_self, Nat.and_zero, Nat.mod_eq_of_lt (Nat.lt_of_le_of_lt Nat.and_le_left small)] at low

theorem Placed.takeRef (few : Fintype.card Thread + 2 < 2 ^ 31) (placed : Placed before places list) {head : Node}
    {refs : Nat} (here : before.pcs thread = .takeRef head refs) (unchanged : before.freeListRefs head = refs) :
    Sound ((before.setRefs head (uint32 (refs + 1))).threadAt thread (.loadNext head)) := by
  have counted := placed.refs head
  have bound := holders_le before head
  have known := placed.knows thread
  rw [here] at known
  have referenced : before.freeListRefs head % 2 ^ 31 ≠ 0 := by
    rw [← and_refsMask, unchanged]
    exact known
  have unprepared : ∀ other, places head ≠ .held other .preparing := by
    intro other prepared
    have idle := placed.preparing head other prepared
    rw [prepared, idle] at counted
    rw [counted] at referenced
    simp [Place.refs, shouldBeOnFreelist] at referenced
  have most := (places head).refs_le
  have word : uint32 (refs + 1) = before.freeListRefs head + 1 := by
    simp only [uint32]
    omega
  have moved : ∀ other, State.holders ((before.setRefs head (uint32 (refs + 1))).threadAt thread (.loadNext head))
      other = before.holders other + if some head = some other then 1 else 0 := by
    intro other
    have moved : State.holders ((before.setRefs head (uint32 (refs + 1))).threadAt thread (.loadNext head)) other +
        (if (before.pcs thread).holds = some other then 1 else 0) = _ := holders_update rfl other
    rwa [here] at moved
  refine ⟨_, _, placed.recounted rfl (by rw [here]; rfl) placed.failed rfl (fun _ changed => absurd rfl changed)
    (fun other => ?_) (fun other waits => ?_) (fun other holder prepared => ?_) trivial rfl⟩
  · rw [moved]
    by_cases same : other = head
    · rw [if_pos (congrArg some same.symm), same, State.threadAt, State.setRefs]
      dsimp only
      rw [Function.update_self, word]
      omega
    · rw [if_neg fun equal => same (Option.some.inj equal).symm]
      exact congrArg (· + before.holders other) (Function.update_of_ne same ..)
  · rw [moved]
    exact Nat.lt_add_right _ (placed.waiting other waits)
  · have apart : head ≠ other := fun same => unprepared holder (same ▸ prepared)
    rw [moved, if_neg fun equal => apart (Option.some.inj equal)]
    exact placed.preparing other holder prepared

/-- The reference that the thread has keeps the next node what it was. -/
theorem Placed.pop (placed : Placed before places list) {head : Node} {next : Option Node}
    (here : before.pcs thread = .popHead head next) (unchanged : before.freeListHead = some head) :
    Sound ({ before with freeListHead := next }.threadAt thread (.checkRefs head)) := by
  have known := placed.knows thread
  rw [here] at known
  cases list with
  | nil =>
      have empty := placed.chain
      rw [unchanged] at empty
      cases empty
  | cons first rest =>
      obtain ⟨same, chain⟩ := placed.chain
      obtain rfl : head = first := Option.some.inj (unchanged.symm.trans same)
      have own := (placed.listed head).mp List.mem_cons_self
      have counted := placed.refs head
      rw [own] at counted
      have moved : State.holders ({ before with freeListHead := next }.threadAt thread (.checkRefs head)) head + 1 =
          before.holders head := by
        have moved : State.holders ({ before with freeListHead := next }.threadAt thread (.checkRefs head)) head +
            (if (before.pcs thread).holds = some head then 1 else 0) = _ := holders_update rfl head
        rw [here, Pc.holds, if_pos rfl] at moved
        exact moved
      have kept : ¬before.out head = true := by
        rw [placed.out, own]
        intro out
        cases out
      refine ⟨_, rest, placed.moved rfl (own.symm ▸ .gives (by rw [here]; rfl) (by simp)) (.keeps rfl)
        (by simp [here, Pc.holds])
        (by simp [Pc.holds]) placed.failed (known ▸ chain) (List.nodup_cons.mp placed.nodup).2 (fun other => ?_) rfl
        (fun _ _ => rfl)
        ?_ (by simp) (by simp) trivial (fun _ _ => rfl) (iff_of_false kept (by simp))⟩
      · by_cases equal : other = head
        · rw [equal, Function.update_self]
          exact iff_of_false (List.nodup_cons.mp placed.nodup).1 (by simp)
        · rw [Function.update_of_ne equal, ← placed.listed, List.mem_cons, or_iff_right equal]
      · refine counted.trans ?_
        simp only [Place.refs]
        omega

omit [DecidableEq Thread] in
theorem Placed.checked (few : Fintype.card Thread + 2 < 2 ^ 31) (placed : Placed before places list) {head : Node}
    (here : before.pcs thread = .checkRefs head) : before.freeListRefs head &&& shouldBeOnFreelist = 0 := by
  have counted := placed.refs head
  have bound := holders_le before head
  rw [(placed.held thread head .popped).mp (congrArg Pc.claims here)] at counted
  simp only [Place.refs] at counted
  exact and_shouldBeOnFreelist (by omega)

theorem Placed.dropRefs (few : Fintype.card Thread + 2 < 2 ^ 31) (placed : Placed before places list) {head : Node}
    (here : before.pcs thread = .dropRefs head) :
    Sound ({ before.fetchAdd head (-2) with out := Function.update before.out head true }.threadAt thread
      (.outside (some head))) := by
  have claims : (before.pcs thread).claims = some (head, .popped) := congrArg Pc.claims here
  have counted := placed.refs head
  have bound := holders_le before head
  rw [(placed.held thread head _).mp claims] at counted
  simp only [Place.refs] at counted
  have dropped : (before.fetchAdd head (-2)).freeListRefs head = before.holders head := by
    simp only [State.fetchAdd, State.setRefs, Function.update_self, uint32]
    omega
  have takes : Takes thread head (.outside (some head)) .out := .gives rfl (by simp)
  exact placed.passes claims (congrArg Pc.holds here) rfl takes rfl (by simp) rfl rfl rfl
    (fun other apart => Function.update_of_ne apart ..) (dropped.trans (Nat.zero_add _).symm) (by simp) (by simp)
    trivial (fun other apart => Function.update_of_ne apart ..) (iff_of_true (Function.update_self ..) rfl)

/-- The thread that returns the last reference to a node that is to be added is
alone with it. -/
theorem Placed.returnRef (few : Fintype.card Thread + 2 < 2 ^ 31) (placed : Placed before places list) {prevHead : Node}
    {head : Option Node} (here : before.pcs thread = .returnRef prevHead head) :
    Sound ((before.fetchAdd prevHead (-1)).threadAt thread
      (if before.freeListRefs prevHead = shouldBeOnFreelist + 1 then .loadHead prevHead
      (.tryGet head) else .loop head)) := by
  have counted := placed.refs prevHead
  have bound := holders_le before prevHead
  have holds : (before.pcs thread).holds = some prevHead := congrArg Pc.holds here
  have claims : (before.pcs thread).claims = none := congrArg Pc.claims here
  have some := holders_pos holds
  have free := Pc.loop_free head
  have most := (places prevHead).refs_le
  have returned : (before.fetchAdd prevHead (-1)).freeListRefs prevHead + 1 = before.freeListRefs prevHead := by
    simp only [State.fetchAdd, State.setRefs, Function.update_self, uint32]
    omega
  have elsewhere : ∀ other, other ≠ prevHead → (before.fetchAdd prevHead (-1)).freeListRefs other =
      before.freeListRefs other :=
    fun other apart => Function.update_of_ne apart ..
  have moved : ∀ pc : Pc Node, pc.holds = none → ∀ other, ((before.fetchAdd prevHead
      (-1)).threadAt thread pc).holders other +
      (if prevHead = other then 1 else 0) = before.holders other := by
    intro pc none other
    have moved : ((before.fetchAdd prevHead (-1)).threadAt thread pc).holders other +
        (if (before.pcs thread).holds = Option.some other then 1 else 0) = _ := holders_update rfl other
    rw [holds, none] at moved
    by_cases same : prevHead = other
    · rw [if_pos same]
      rwa [if_pos (congrArg Option.some same)] at moved
    · rw [if_neg same]
      rwa [if_neg fun equal => same (Option.some.inj equal)] at moved
  split
  · rename_i last
    have place : places prevHead = .waiting := by
      cases place : places prevHead with
      | waiting => rfl
      | out | listed =>
          rw [place] at counted
          simp only [Place.refs, shouldBeOnFreelist] at counted last
          omega
      | held other stage =>
          rw [place] at counted
          cases stage with
          | preparing => exact absurd (placed.preparing prevHead other place) some.ne'
          | adding | pushing | popped =>
              simp only [Place.refs, shouldBeOnFreelist] at counted last
              omega
    have fewer := moved (.loadHead prevHead (.tryGet head)) rfl prevHead
    rw [if_pos rfl] at fewer
    rw [place] at counted
    simp only [Place.refs] at counted
    have kept : ¬before.out prevHead = true := by
      rw [placed.out, place]
      intro out
      cases out
    refine ⟨_, _, placed.carries rfl (place.symm ▸ .gives claims (by simp)) (.keeps rfl) (by simp [holds]) rfl
      ⟨by simp [place], by simp⟩
      rfl rfl rfl elsewhere ?_ (by simp) (fun _ _ => by omega) trivial (fun _ _ => rfl) (iff_of_false kept (by simp))⟩
    change (before.fetchAdd prevHead (-1)).freeListRefs prevHead = shouldBeOnFreelist + _
    omega
  · rename_i more
    have fewer := moved (.loop head) free.holds
    refine ⟨_, _, placed.recounted rfl (free.claims.trans claims.symm) placed.failed rfl
      (fun _ changed => absurd rfl changed)
      (fun other => ?_) (fun other waits => ?_) (fun other holder prepared => ?_) (free.knows _) rfl⟩
    · have less := fewer other
      by_cases same : prevHead = other
      · rw [if_pos same] at less
        subst same
        change (before.fetchAdd prevHead (-1)).freeListRefs prevHead + _ = _
        omega
      · rw [if_neg same] at less
        have unchanged := elsewhere other (Ne.symm same)
        change (before.fetchAdd prevHead (-1)).freeListRefs other + _ = _
        omega
    · have less := fewer other
      have enough := placed.waiting other waits
      by_cases same : prevHead = other
      · rw [if_pos same] at less
        subst same
        rw [waits] at counted
        simp only [Place.refs] at counted
        omega
      · rw [if_neg same] at less
        omega
    · have less := fewer other
      have none := placed.preparing other holder prepared
      omega

/-! ## Every step -/

theorem Sound.advance (few : Fintype.card Thread + 2 < 2 ^ 31) (sound : Sound before)
    (moved : FreeList.advance before thread = some after) : Sound after := by
  obtain ⟨places, list, placed⟩ := sound
  cases here : before.pcs thread with
  | outside => simp only [FreeList.advance, here, reduceCtorEq] at moved
  | addRefs =>
      simp only [FreeList.advance, here, Option.some.injEq] at moved
      exact moved ▸ placed.addRefs few here
  | loadHead =>
      simp only [FreeList.advance, here, Option.some.injEq] at moved
      exact moved ▸ ⟨_, _, placed.stays (by rw [here]; rfl) (by rw [here]; rfl) trivial⟩
  | storeNext =>
      simp only [FreeList.advance, here, Option.some.injEq] at moved
      exact moved ▸ placed.storeNext here
  | storeRefs =>
      simp only [FreeList.advance, here, Option.some.injEq] at moved
      exact moved ▸ placed.storeRefs here
  | pushHead =>
      simp only [FreeList.advance, here] at moved
      split at moved
      · rename_i unchanged
        exact Option.some.inj moved ▸ placed.push here unchanged
      · exact Option.some.inj moved ▸ ⟨_, _, placed.stays (by rw [here]; rfl) (by rw [here]; rfl) trivial⟩
  | restoreRefs =>
      simp only [FreeList.advance, here, Option.some.injEq] at moved
      exact moved ▸ placed.restoreRefs few here
  | getHead =>
      simp only [FreeList.advance, here, Option.some.injEq] at moved
      have free := Pc.loop_free before.freeListHead
      exact moved ▸ ⟨_, _, placed.stays (by rw [here, free.claims]; rfl) (by rw [here, free.holds]; rfl) (free.knows _)⟩
  | loadRefs =>
      simp only [FreeList.advance, here, Option.some.injEq] at moved
      subst moved
      split
      · exact ⟨_, _, placed.stays (by rw [here]; rfl) (by rw [here]; rfl) trivial⟩
      · rename_i referenced
        exact ⟨_, _, placed.stays (by rw [here]; rfl) (by rw [here]; rfl) referenced⟩
  | takeRef =>
      simp only [FreeList.advance, here] at moved
      split at moved
      · rename_i unchanged
        exact Option.some.inj moved ▸ placed.takeRef few here unchanged
      · exact Option.some.inj moved ▸ ⟨_, _, placed.stays (by rw [here]; rfl) (by rw [here]; rfl) trivial⟩
  | loadNext =>
      simp only [FreeList.advance, here, Option.some.injEq] at moved
      exact moved ▸ ⟨_, _, placed.stays (by rw [here]; rfl) (by rw [here]; rfl) rfl⟩
  | popHead =>
      simp only [FreeList.advance, here] at moved
      split at moved
      · rename_i unchanged
        exact Option.some.inj moved ▸ placed.pop here unchanged
      · exact Option.some.inj moved ▸ ⟨_, _, placed.stays (by rw [here]; rfl) (by rw [here]; rfl) trivial⟩
  | checkRefs =>
      simp only [FreeList.advance, here, placed.checked few here, if_true, Option.some.injEq] at moved
      exact moved ▸ ⟨_, _, placed.stays (by rw [here]; rfl) (by rw [here]; rfl) trivial⟩
  | dropRefs =>
      simp only [FreeList.advance, here, Option.some.injEq] at moved
      exact moved ▸ placed.dropRefs few here
  | returnRef =>
      simp only [FreeList.advance, here, Option.some.injEq] at moved
      exact moved ▸ placed.returnRef few here

theorem sound_inductive (few : Fintype.card Thread + 2 < 2 ^ 31) :
    (system : System (State Thread Node) (Label Thread Node)).Inductive Sound where
  start := by
    intro state initial
    rw [show state = .initial from initial]
    have nobody : ∀ node, (State.initial : State Thread Node).holders node = 0 := fun node =>
      threadsAt_eq_zero (fun pc : Pc Node => pc.holds = some node) fun _ holds => by cases holds
    refine ⟨fun _ => .out, [], rfl, rfl, List.nodup_nil, by simp, by simp [State.initial, Pc.claims], fun node => ?_,
      by simp, by simp,
      fun _ => trivial, fun _ => iff_of_true rfl rfl⟩
    rw [nobody]
    rfl
  step := by
    intro before label after sound moved
    cases label with
    | add thread node =>
        obtain ⟨places, list, placed⟩ := sound
        simp only [system, step] at moved
        split at moved
        · rename_i here
          obtain ⟨given, moved⟩ := Option.ite_none_right_eq_some.mp moved
          exact Option.some.inj moved ▸ placed.enter here given
        · cases moved
    | tryGet thread =>
        obtain ⟨places, list, placed⟩ := sound
        simp only [system, step] at moved
        split at moved
        · rename_i here
          exact Option.some.inj moved ▸ ⟨_, _, placed.stays (by rw [here]; rfl) (by rw [here]; rfl) trivial⟩
        · cases moved
    | advance thread => exact sound.advance few moved

end Ndnperf.Cxx.FreeList

import Mathlib.Data.Finset.Dedup
import Mathlib.Data.Finset.Card
import Mathlib.Data.Fintype.Basic

namespace Library.Slots

/-! Lists that hold one item for each element of a finite set, in any order.

`entry index detail` is the item for `index`; the details are whatever else an
item carries, such as the retries left. What is in flight is often kept in such
a list.
-/

variable {Index Detail Item : Type} {entry : Index → Detail → Item} {items : List Item} {indices : Finset Index}

def Holds (entry : Index → Detail → Item) (items : List Item) (indices : Finset Index) : Prop :=
  ∃ detail : Index → Detail, items.Perm (indices.toList.map fun index => entry index (detail index))

theorem holds_map {listed : List Index} (distinct : listed.Nodup) (same : ∀ index, index ∈ listed ↔ index ∈ indices)
    (detail : Index → Detail) : Holds entry (listed.map fun index => entry index (detail index)) indices :=
  ⟨detail, ((List.perm_ext_iff_of_nodup distinct indices.nodup_toList).mpr fun index => by
    rw [same, Finset.mem_toList]).map _⟩

namespace Holds

theorem length (holds : Holds entry items indices) : items.length = indices.card := by
  obtain ⟨detail, same⟩ := holds
  rw [same.length_eq, List.length_map, Finset.length_toList]

theorem mem (holds : Holds entry items indices) {item : Item} (member : item ∈ items) :
    ∃ index ∈ indices, ∃ detail, item = entry index detail := by
  obtain ⟨detail, same⟩ := holds
  obtain ⟨index, inside, rfl⟩ := List.mem_map.mp (same.mem_iff.mp member)
  exact ⟨index, Finset.mem_toList.mp inside, detail index, rfl⟩

theorem found (holds : Holds entry items indices) {index : Index} (inside : index ∈ indices) :
    ∃ detail, entry index detail ∈ items := by
  obtain ⟨detail, same⟩ := holds
  exact ⟨detail index, same.mem_iff.mpr (List.mem_map.mpr ⟨index, Finset.mem_toList.mpr inside, rfl⟩)⟩

variable [DecidableEq Index]

theorem add (holds : Holds entry items indices) {index : Index} (fresh : index ∉ indices) (detail : Detail) :
    Holds entry (items ++ [entry index detail]) (insert index indices) := by
  obtain ⟨details, same⟩ := holds
  refine ⟨Function.update details index detail, ?_⟩
  have others : indices.toList.map (fun other => entry other (Function.update details index detail other)) =
      indices.toList.map fun other => entry other (details other) := by
    refine List.map_congr_left fun other member => ?_
    have different : other ≠ index := fun equal => fresh (equal ▸ Finset.mem_toList.mp member)
    rw [Function.update_of_ne different]
  have listed := (Finset.toList_insert fresh).map fun other =>
    entry other (Function.update details index detail other)
  rw [List.map_cons, others, Function.update_self] at listed
  exact (List.perm_append_singleton _ _).trans ((same.cons _).trans listed.symm)

/-- Items told apart by a key that depends on the index alone occur once for
each index in the set, and not at all for the others. -/
theorem count {Key : Type} [DecidableEq Key] (holds : Holds entry items indices) (key : Item → Key)
    (name : Index → Key) (keyed : ∀ index detail, key (entry index detail) = name index) (index : Index)
    (distinct : ∀ other ∈ indices, name other = name index → other = index) :
    items.countP (key · = name index) = if index ∈ indices then 1 else 0 := by
  obtain ⟨details, same⟩ := holds
  rw [same.countP_eq, List.countP_map]
  have here : ∀ other ∈ indices.toList,
      ((fun item => decide (key item = name index)) ∘ fun other => entry other (details other)) other =
        (other == index) := by
    intro other member
    simp only [Function.comp_apply, keyed, beq_eq_decide, decide_eq_decide]
    exact ⟨distinct other (Finset.mem_toList.mp member), fun equal => equal ▸ rfl⟩
  rw [List.countP_congr (fun other member => by rw [here other member])]
  exact (List.Nodup.count indices.nodup_toList).trans (by simp only [Finset.mem_toList])

theorem take (holds : Holds entry items indices) [BEq Item] [LawfulBEq Item] {item : Item} (member : item ∈ items) :
    ∃ index ∈ indices, ∃ detail, item = entry index detail ∧ Holds entry (items.erase item) (indices.erase index) := by
  obtain ⟨details, same⟩ := holds
  obtain ⟨index, inside, rfl⟩ := List.mem_map.mp (same.mem_iff.mp member)
  have inside := Finset.mem_toList.mp inside
  refine ⟨index, inside, details index, rfl, details, ?_⟩
  have listed := (Finset.toList_insert (Finset.notMem_erase index indices)).map fun other =>
    entry other (details other)
  rw [Finset.insert_erase inside, List.map_cons] at listed
  have taken := (same.trans listed).erase (entry index (details index))
  rwa [List.erase_cons_head] at taken

end Holds

end Library.Slots

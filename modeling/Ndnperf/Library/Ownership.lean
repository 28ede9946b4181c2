import Mathlib.Data.Finset.Basic
import Mathlib.Logic.Function.Basic

namespace Library.Ownership

/-! Resources in use that are passed from one owner to another. -/

variable {Owner Resource : Type}

/-- Each resource in use has one owner, and nobody owns another one. -/
structure Exclusive (owned : Owner → Option Resource) (used : Finset Resource) : Prop where
  used : ∀ resource, resource ∈ used ↔ ∃ owner, owned owner = some resource
  unique : ∀ owner other resource, owned owner = some resource → owned other = some resource → owner = other

theorem exclusive_none : Exclusive (fun _ : Owner => (none : Option Resource)) ∅ := by
  constructor
  · intro resource
    simp
  · intro owner other resource has
    cases has

variable {owned : Owner → Option Resource} {used : Finset Resource} {owner : Owner} {resource : Resource}

theorem Exclusive.mem (exclusive : Exclusive owned used) (has : owned owner = some resource) : resource ∈ used :=
  (exclusive.used resource).mpr ⟨owner, has⟩

theorem Exclusive.ne (exclusive : Exclusive owned used) (has : owned owner = some resource) {other : Owner}
    {second : Resource} (also : owned other = some second) (different : owner ≠ other) : resource ≠ second := by
  intro same
  exact different (exclusive.unique owner other resource has (same ▸ also))

variable [DecidableEq Owner]

theorem update_eq_some {value : Option Resource} {other : Owner}
    (has : Function.update owned owner value other = some resource) :
    other = owner ∧ value = some resource ∨ other ≠ owner ∧ owned other = some resource := by
  by_cases same : other = owner
  · rw [same, Function.update_self] at has
    exact .inl ⟨same, has⟩
  · rw [Function.update_of_ne same] at has
    exact .inr ⟨same, has⟩

variable [DecidableEq Resource]

theorem Exclusive.acquire (exclusive : Exclusive owned used) (without : owned owner = none) (free : resource ∉ used) :
    Exclusive (Function.update owned owner (some resource)) (insert resource used) := by
  constructor
  · intro second
    rw [Finset.mem_insert, exclusive.used]
    constructor
    · intro held
      rcases held with rfl | ⟨other, has⟩
      · exact ⟨owner, Function.update_self ..⟩
      · have different : other ≠ owner := by
          intro same
          cases without.symm.trans (same ▸ has)
        exact ⟨other, (Function.update_of_ne different _ _).trans has⟩
    · intro held
      obtain ⟨other, has⟩ := held
      obtain ⟨_, same⟩ | ⟨_, has⟩ := update_eq_some has
      · exact .inl (Option.some.inj same).symm
      · exact .inr ⟨other, has⟩
  · intro first other second has also
    obtain ⟨here, same⟩ | ⟨_, has⟩ := update_eq_some has <;> obtain ⟨there, equal⟩ | ⟨_, also⟩ := update_eq_some also
    · exact here.trans there.symm
    · exact absurd (Option.some.inj same ▸ exclusive.mem also) free
    · exact absurd (Option.some.inj equal ▸ exclusive.mem has) free
    · exact exclusive.unique first other second has also

theorem Exclusive.release (exclusive : Exclusive owned used) (has : owned owner = some resource) :
    Exclusive (Function.update owned owner none) (used.erase resource) := by
  constructor
  · intro second
    rw [Finset.mem_erase, exclusive.used]
    constructor
    · intro held
      obtain ⟨different, other, also⟩ := held
      have apart : other ≠ owner := by
        intro same
        exact different (Option.some.inj (also.symm.trans (same ▸ has)))
      exact ⟨other, (Function.update_of_ne apart _ _).trans also⟩
    · intro held
      obtain ⟨other, also⟩ := held
      obtain ⟨_, absent⟩ | ⟨apart, also⟩ := update_eq_some also
      · cases absent
      · exact ⟨exclusive.ne also has apart, other, also⟩
  · intro first other second has also
    obtain ⟨_, absent⟩ | ⟨_, has⟩ := update_eq_some has
    · cases absent
    · obtain ⟨_, absent⟩ | ⟨_, also⟩ := update_eq_some also
      · cases absent
      · exact exclusive.unique first other second has also

theorem Exclusive.transfer (exclusive : Exclusive owned used) (has : owned owner = some resource) {receiver : Owner}
    (without : owned receiver = none) :
    Exclusive (Function.update (Function.update owned owner none) receiver (some resource)) used := by
  have apart : receiver ≠ owner := by
    intro same
    cases without.symm.trans (same ▸ has)
  have passed := (exclusive.release has).acquire ((Function.update_of_ne apart _ _).trans without)
      (Finset.notMem_erase _ _)
  rwa [Finset.insert_erase (exclusive.mem has)] at passed

end Library.Ownership

import Mathlib.Data.List.Nodup
import Mathlib.Data.List.Perm.Subperm

namespace Library.Tokens

open List

/-! Tokens that move between places and are never in two of them. What is in a
place is a list in which the order does not matter. -/

variable {Place Token Item : Type} {before after : Place → List Token}

structure Exclusive (holds : Place → List Token) : Prop where
  nodup : ∀ place, (holds place).Nodup
  apart : ∀ ⦃left right token⦄, token ∈ holds left → token ∈ holds right → left = right

theorem nodup_of_subperm {fewer more : List Token} (subperm : fewer <+~ more) (distinct : more.Nodup) :
    fewer.Nodup := by
  obtain ⟨middle, same, sublist⟩ := subperm
  exact same.nodup_iff.mp (distinct.sublist sublist)

theorem exclusive_nowhere (empty : ∀ place, after place = []) : Exclusive after :=
  ⟨fun place => empty place ▸ nodup_nil, fun left _ _ member => by simp [empty left] at member⟩

/-- What a step can do: lose tokens anywhere, move some from one place to
another, or let a fresh one in. -/
inductive Flow (Fresh : Token → Prop) (before after : Place → List Token) : Prop where
  | lose (fewer : ∀ place, after place <+~ before place)
  | move {source target : Place} {moved : List Token} (different : source ≠ target)
      (taken : moved ++ after source <+~ before source) (put : after target <+~ moved ++ before target)
      (others : ∀ place, place ≠ source → place ≠ target → after place <+~ before place)
  | enter {target : Place} {token : Token} (fresh : Fresh token) (put : after target <+~ token :: before target)
      (others : ∀ place, place ≠ target → after place <+~ before place)

namespace Flow

variable {Fresh : Token → Prop}

/-- A place that takes nothing in, when tokens move. -/
private theorem kept {source target place : Place} {moved : List Token}
    (taken : moved ++ after source <+~ before source)
    (others : ∀ place, place ≠ source → place ≠ target → after place <+~ before place) (away : place ≠ target) :
    after place <+~ before place := by
  by_cases same : place = source
  · subst same
    exact (sublist_append_right _ _).subperm.trans taken
  · exact others place same away

theorem origin (flow : Flow Fresh before after) {place : Place} {token : Token} (member : token ∈ after place) :
    (∃ earlier, token ∈ before earlier) ∨ Fresh token := by
  cases flow with
  | lose fewer => exact .inl ⟨place, (fewer place).subset member⟩
  | @move source target moved _ taken put others =>
      refine .inl ?_
      by_cases here : place = target
      · subst here
        obtain gone | stayed := mem_append.mp (put.subset member)
        · exact ⟨source, taken.subset (mem_append_left _ gone)⟩
        · exact ⟨place, stayed⟩
      · exact ⟨place, (kept taken others here).subset member⟩
  | @enter target token fresh put others =>
      by_cases here : place = target
      · subst here
        obtain rfl | stayed := mem_cons.mp (put.subset member)
        · exact .inr fresh
        · exact .inl ⟨place, stayed⟩
      · exact .inl ⟨place, (others place here).subset member⟩

private theorem exclusive_move (exclusive : Exclusive before) {source target : Place} {moved : List Token}
    (different : source ≠ target) (taken : moved ++ after source <+~ before source)
    (put : after target <+~ moved ++ before target)
    (others : ∀ place, place ≠ source → place ≠ target → after place <+~ before place) : Exclusive after := by
  have distinct := nodup_of_subperm taken (exclusive.nodup source)
  have left : moved ⊆ before source := fun token member => taken.subset (mem_append_left _ member)
  -- A token is where it was before, or among those moved and at the target.
  have found : ∀ {place token}, token ∈ after place → token ∈ before place ∨ place = target ∧ token ∈ moved := by
    intro place token member
    by_cases here : place = target
    · subst here
      exact (mem_append.mp (put.subset member)).elim (fun moved => .inr ⟨rfl, moved⟩) .inl
    · exact .inl ((kept taken others here).subset member)
  have arrived : ∀ {place token}, token ∈ moved → token ∈ after place → token ∈ before place → place = target := by
    intro place token gone here earlier
    obtain rfl := exclusive.apart earlier (left gone)
    exact absurd here (fun here => disjoint_of_nodup_append distinct gone here)
  constructor
  · intro place
    by_cases here : place = target
    · subst here
      refine nodup_of_subperm put (nodup_append'.mpr ⟨(nodup_append'.mp distinct).1, exclusive.nodup place, ?_⟩)
      exact fun token gone there => different (exclusive.apart (left gone) there)
    · exact nodup_of_subperm (kept taken others here) (exclusive.nodup place)
  · intro first second token here there
    obtain earlier | ⟨rfl, gone⟩ := found here
    · obtain also | ⟨rfl, gone⟩ := found there
      · exact exclusive.apart earlier also
      · exact arrived gone here earlier
    · obtain also | ⟨rfl, _⟩ := found there
      · exact (arrived gone there also).symm
      · rfl

private theorem exclusive_enter (exclusive : Exclusive before) {target : Place} {token : Token}
    (absent : ∀ place, token ∉ before place) (put : after target <+~ token :: before target)
    (others : ∀ place, place ≠ target → after place <+~ before place) : Exclusive after := by
  have found : ∀ {place other}, other ∈ after place → other ∈ before place ∨ place = target ∧ other = token := by
    intro place other member
    by_cases here : place = target
    · subst here
      exact (mem_cons.mp (put.subset member)).elim (fun same => .inr ⟨rfl, same⟩) .inl
    · exact .inl ((others place here).subset member)
  constructor
  · intro place
    by_cases here : place = target
    · subst here
      exact nodup_of_subperm put (nodup_cons.mpr ⟨absent place, exclusive.nodup place⟩)
    · exact nodup_of_subperm (others place here) (exclusive.nodup place)
  · intro first second other here there
    obtain earlier | ⟨rfl, rfl⟩ := found here
    · obtain also | ⟨rfl, rfl⟩ := found there
      · exact exclusive.apart earlier also
      · exact absurd earlier (absent first)
    · obtain also | ⟨rfl, _⟩ := found there
      · exact absurd also (absent second)
      · rfl

theorem exclusive (flow : Flow Fresh before after) (earlier : Exclusive before)
    (absent : ∀ token, Fresh token → ∀ place, token ∉ before place) : Exclusive after := by
  cases flow with
  | lose fewer =>
      exact ⟨fun place => nodup_of_subperm (fewer place) (earlier.nodup place),
        fun left right _ here there => earlier.apart ((fewer left).subset here) ((fewer right).subset there)⟩
  | move different taken put others => exact exclusive_move earlier different taken put others
  | enter fresh put others => exact exclusive_enter earlier (absent _ fresh) put others

end Flow

/-- Entries that copy different items of a list are at most the list. -/
theorem subperm_of_indices {entries : List (Nat × Item)} {items : List Item} (distinct : (entries.map Prod.fst).Nodup)
    (found : ∀ entry ∈ entries, items[entry.1]? = some entry.2) : entries.map Prod.snd <+~ items := by
  have within : entries.map Prod.fst <+~ range items.length := by
    refine subperm_of_subset distinct fun index member => ?_
    obtain ⟨entry, listed, rfl⟩ := mem_map.mp member
    exact mem_range.mpr (List.getElem?_eq_some_iff.mp (found entry listed)).1
  obtain ⟨indices, same, sublist⟩ := within
  have looked : indices.map (items[·]?) <+~ (range items.length).map (items[·]?) := (sublist.map _).subperm
  have listed : (range items.length).map (items[·]?) = items.map some := by
    refine ext_getElem (by simp) fun index inside _ => ?_
    simp only [length_map, length_range] at inside
    simp [inside]
  have copied : (entries.map Prod.fst).map (items[·]?) = (entries.map Prod.snd).map some := by
    simp only [map_map]
    exact map_congr_left found
  rw [listed] at looked
  have some_subperm : (entries.map Prod.snd).map some <+~ items.map some := by
    rw [← copied]
    exact ((same.map _).symm.subperm).trans looked
  exact (map_subperm_map_iff fun _ _ => Option.some.inj).mp some_subperm

end Library.Tokens

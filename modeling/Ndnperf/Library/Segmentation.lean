import Mathlib.Data.List.Basic
import Mathlib.Tactic.Linarith

namespace Library.Segmentation

/-! A byte string cut into numbered segments of one width, the last one possibly shorter. -/

variable {α : Type} {width index count : Nat} {stream : List α}

def segment (width index : Nat) (stream : List α) : List α :=
  (stream.drop (index * width)).take width

theorem segment_eq_nil (past : stream.length ≤ index * width) : segment width index stream = [] := by
  simp only [segment, List.drop_eq_nil_of_le past, List.take_nil]

/-- The first `count` segments in order are the first `count * width` bytes. -/
theorem flatMap_segment (width count : Nat) (stream : List α) :
    (List.range count).flatMap (segment width · stream) = stream.take (count * width) := by
  induction count with
  | zero => simp
  | succ count ih =>
      have split : (count + 1) * width = count * width + width := Nat.succ_mul count width
      rw [List.range_succ, List.flatMap_append, ih, split, List.take_add]
      simp [segment]

/-- A stream that agrees with another over some segments has the same segments there. -/
theorem segment_of_take {other : List α} (same : stream.take (count * width) = other) (inside : index < count) :
    segment width index stream = segment width index other := by
  have reach : index * width + width ≤ count * width := by
    rw [← Nat.succ_mul]
    exact Nat.mul_le_mul_right width inside
  rw [← same, segment, segment, List.drop_take, List.take_take, Nat.min_eq_left (by omega)]

/-- Where one part of a list of them is exchanged without effect on the whole, it is the same. -/
theorem eq_of_flatMap_update {part : Nat → List α} {other : List α} (inside : index < count)
    (same : (List.range count).flatMap (Function.update part index other) = (List.range count).flatMap part) :
    other = part index := by
  obtain ⟨front, back, split⟩ := List.append_of_mem (List.mem_range.mpr inside)
  have distinct := List.nodup_range (n := count)
  rw [split, List.nodup_append, List.nodup_cons] at distinct
  obtain ⟨_, ⟨later, _⟩, earlier⟩ := distinct
  have before : front.flatMap (Function.update part index other) = front.flatMap part :=
    List.flatMap_congr fun number member =>
      Function.update_of_ne (earlier number member index List.mem_cons_self) _ _
  have after : back.flatMap (Function.update part index other) = back.flatMap part :=
    List.flatMap_congr fun number member =>
      Function.update_of_ne (fun equal : number = index => later (equal ▸ member)) _ _
  rw [split, List.flatMap_append, List.flatMap_cons, List.flatMap_append, List.flatMap_cons, before, after,
    Function.update_self, List.append_cancel_left_eq, List.append_cancel_right_eq] at same
  exact same

/-- Segments past the end are empty, so reading too many of them changes nothing. -/
theorem flatMap_segment_all (enough : stream.length ≤ count * width) :
    (List.range count).flatMap (segment width · stream) = stream := by
  rw [flatMap_segment, List.take_of_length_le enough]

/-- Index of the segment that holds the last byte. -/
def lastIndex (width length : Nat) : Nat := (length - 1) / width

theorem length_le_of_lastIndex_lt {length : Nat} (positive : 0 < width)
    (covered : lastIndex width length < count) : length ≤ count * width := by
  have reached : (length - 1) / width < count := covered
  have below := (Nat.div_lt_iff_lt_mul positive).mp reached
  omega

theorem lastIndex_mul_lt {length : Nat} (nonempty : 0 < length) :
    lastIndex width length * width < length := by
  have below : (length - 1) / width * width ≤ length - 1 := Nat.div_mul_le_self _ _
  simp only [lastIndex]
  omega

def segmentCount (width length : Nat) : Nat := (length + width - 1) / width

theorem segmentCount_eq_lastIndex {length : Nat} (positive : 0 < width) (nonempty : 0 < length) :
    segmentCount width length = lastIndex width length + 1 := by
  have shifted : length + width - 1 = length - 1 + width := by omega
  rw [segmentCount, shifted, Nat.add_div_right _ positive, lastIndex]

theorem length_le_segmentCount_mul {length : Nat} (positive : 0 < width) :
    length ≤ segmentCount width length * width := by
  rcases Nat.eq_zero_or_pos length with rfl | nonempty
  · exact Nat.zero_le _
  · apply length_le_of_lastIndex_lt positive
    rw [segmentCount_eq_lastIndex positive nonempty]
    exact Nat.lt_succ_self _

theorem mul_lt_of_lt_segmentCount {length : Nat} (positive : 0 < width) (inside : index < segmentCount width length) :
    index * width < length := by
  have scaled : (index + 1) * width ≤ length + width - 1 := (Nat.le_div_iff_mul_le positive).mp inside
  rw [Nat.succ_mul] at scaled
  omega

theorem segmentCount_mul (positive : 0 < width) (count : Nat) : segmentCount width (width * count) = count := by
  rw [segmentCount, Nat.add_sub_assoc positive, Nat.mul_add_div positive, Nat.div_eq_of_lt (by omega), Nat.add_zero]

/-! ## Partitions -/

theorem segment_length (width index : Nat) (stream : List α) :
    (segment width index stream).length = min width (stream.length - index * width) := by
  simp only [segment, List.length_take, List.length_drop]

/-- A stream in so many parts: none is empty, and only the last may be shorter than the width. -/
structure Cut (width : Nat) (stream : List α) (count : Nat) (part : Nat → List α) : Prop where
  nonempty : ∀ index, index < count → part index ≠ []
  small : ∀ index, index < count → (part index).length ≤ width
  full : ∀ index, index + 1 < count → (part index).length = width
  whole : (List.range count).flatMap part = stream

theorem Cut.congr {part other : Nat → List α} (cut : Cut width stream count part)
    (same : ∀ index, index < count → other index = part index) : Cut width stream count other where
  nonempty index inside := by
    rw [same index inside]
    exact cut.nonempty index inside
  small index inside := by
    rw [same index inside]
    exact cut.small index inside
  full index inside := by
    rw [same index (by omega)]
    exact cut.full index inside
  whole := by
    have listed : (List.range count).flatMap other = (List.range count).flatMap part :=
      List.flatMap_congr fun index member => same index (List.mem_range.mp member)
    rw [listed, cut.whole]

theorem cut_segments (positive : 0 < width) (stream : List α) :
    Cut width stream (segmentCount width stream.length) (segment width · stream) where
  nonempty index inside := by
    have below : index * width < stream.length := mul_lt_of_lt_segmentCount positive inside
    refine List.ne_nil_of_length_pos ?_
    rw [segment_length]
    omega
  small index _ := by
    rw [segment_length]
    exact Nat.min_le_left _ _
  full index inside := by
    have below : (index + 1) * width < stream.length := mul_lt_of_lt_segmentCount positive inside
    rw [Nat.succ_mul] at below
    rw [segment_length]
    omega
  whole := flatMap_segment_all (length_le_segmentCount_mul positive)

/-- Cutting another stream into as many segments gives this one only if it is
the same, or if it goes on where the last segment of this one is full. -/
theorem flatMap_segment_eq_iff (positive : 0 < width) {other : List α} :
    (List.range (segmentCount width stream.length)).flatMap (segment width · other) = stream ↔
      other = stream ∨ width ∣ stream.length ∧ stream <+: other := by
  rw [flatMap_segment]
  have covered : stream.length ≤ segmentCount width stream.length * width := length_le_segmentCount_mul positive
  constructor
  · intro same
    by_cases short : other.length ≤ segmentCount width stream.length * width
    · exact .inl ((List.take_of_length_le short).symm.trans same)
    · have full : stream.length = segmentCount width stream.length * width := by
        have taken := congrArg List.length same
        rw [List.length_take] at taken
        omega
      exact .inr ⟨Dvd.intro_left _ full.symm, List.prefix_iff_eq_take.mpr (full ▸ same.symm)⟩
  · rintro (rfl | ⟨⟨count, full⟩, further⟩)
    · exact List.take_of_length_le covered
    · rw [full, segmentCount_mul positive, Nat.mul_comm count, ← full]
      exact (List.prefix_iff_eq_take.mp further).symm

end Library.Segmentation

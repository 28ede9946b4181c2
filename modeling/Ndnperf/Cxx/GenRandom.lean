import Mathlib.Data.List.Basic
import Ndnperf.Cxx.Server

namespace Ndnperf.Cxx.Server

open Ndn Library.Word

/-! `Server::gen_random` and the array that the constructor has it fill. -/

def alphanum : Bytes := ascii "0123456789ABCDEFGHIJKLMNOPQRSTUVWXYZabcdefghijklmnopqrstuvwxyz"

/-- `s[index] = value` -/
structure Write where
  index : Int
  value : UInt8
deriving DecidableEq

/-- `alphanum[rand() % (sizeof(alphanum) - 1)]`; the terminator counts in `sizeof`. -/
def randomCharacter (rand : Nat) : UInt8 := alphanum.getD (rand % alphanum.length) 0

/-- The loop of `gen_random`, for at most `fuel` rounds: `i` is an `int`, `len` a `size_t`. -/
def genRandomLoop (rand : Nat → Nat) (len : Nat) : Nat → Int → List Write
  | 0, _ => []
  | fuel + 1, i =>
      if uint64 i < len then
        { index := i, value := randomCharacter (rand i.toNat) } :: genRandomLoop rand len fuel (int32 (i + 1))
      else []

/-- The writes of `gen_random(s, len)`; `rand call` is what the call of this number returns. -/
def genRandom (rand : Nat → Nat) (len : Nat) : List Write :=
  genRandomLoop rand len len 0 ++ [{ index := len, value := 0 }]

/-- A write to an array, where it falls into it. -/
def store {length : Nat} (array : Vector UInt8 length) (write : Write) : Vector UInt8 length :=
  if 0 ≤ write.index then array.setIfInBounds write.index.toNat write.value else array

/-- `chararray` after `gen_random(chararray, payload_size)`. -/
def filled (rand : Nat → Nat) {payloadSize : Nat} (chararray : Vector UInt8 payloadSize) : Vector UInt8 payloadSize :=
  (genRandom rand payloadSize).foldl store chararray

/-- The value of `_content`. -/
def contentBlock (rand : Nat → Nat) {payloadSize : Nat} (chararray : Vector UInt8 payloadSize) : Bytes :=
  (filled rand chararray).toList

/-- The payload is made inside the array, of characters, and of the size asked for. -/
structure PayloadInside (rand : Nat → Nat) {payloadSize : Nat} (chararray : Vector UInt8 payloadSize) : Prop where
  inside : ∀ write ∈ genRandom rand payloadSize, 0 ≤ write.index ∧ write.index < payloadSize
  characters : ∀ index (below : index < payloadSize), (filled rand chararray)[index] ∈ alphanum
  block : (contentBlock rand chararray).length = payloadSize

variable {rand : Nat → Nat} {len : Nat}

theorem randomCharacter_mem (value : Nat) : randomCharacter value ∈ alphanum := by
  have inside : value % alphanum.length < alphanum.length := Nat.mod_lt _ (by decide)
  simp only [randomCharacter, List.getD_eq_getElem?_getD, List.getElem?_eq_getElem inside, Option.getD_some]
  exact List.getElem_mem inside

/-- The round for each index below `len`, and no other: more fuel does not help. -/
theorem genRandomLoop_eq (bound : len < 2 ^ 31) {start fuel : Nat} (enough : len ≤ start + fuel) (below : start ≤ len) :
    genRandomLoop rand len fuel start =
      (List.range' start (len - start)).map fun index => { index, value := randomCharacter (rand index) } := by
  induction fuel generalizing start with
  | zero =>
      have past : len - start = 0 := by omega
      simp only [genRandomLoop, past, List.range'_zero, List.map_nil]
  | succ fuel ih =>
      have counter : uint64 start = start := by
        rw [uint64_natCast]
        omega
      by_cases going : start < len
      · have next : int32 (start + 1) = (start + 1 : Nat) := int32_of_bounds (by omega) (by omega)
        have rest : len - start = len - (start + 1) + 1 := by omega
        simp only [genRandomLoop, counter, going, if_true, next, @ih (start + 1) (by omega) going, rest,
          List.range'_succ, List.map_cons, Int.toNat_natCast]
      · have past : len - start = 0 := by omega
        simp only [genRandomLoop, counter, going, if_false, past, List.range'_zero, List.map_nil]

theorem genRandom_eq (bound : len < 2 ^ 31) :
    genRandom rand len =
      (List.range len).map (fun index : Nat => Write.mk index (randomCharacter (rand index))) ++ [⟨len, 0⟩] := by
  have loop := @genRandomLoop_eq rand len bound 0 len (by omega) (Nat.zero_le len)
  simp only [Nat.sub_zero, ← List.range_eq_range', Int.ofNat_zero] at loop
  simp only [genRandom, ← loop]

theorem terminator_mem : { index := len, value := 0 } ∈ genRandom rand len :=
  List.mem_append_right _ List.mem_cons_self

/-- `gen_random` keeps to an array of `length` characters exactly if there is room for the terminator. -/
theorem genRandom_inside_iff (bound : len < 2 ^ 31) {length : Nat} :
    (∀ write ∈ genRandom rand len, 0 ≤ write.index ∧ write.index < length) ↔ len < length := by
  constructor
  · intro inside
    have last := (inside _ terminator_mem).2
    exact Int.ofNat_lt.mp last
  · intro room write member
    rw [genRandom_eq bound] at member
    rcases List.mem_append.mp member with body | last
    · obtain ⟨index, within, same⟩ := List.mem_map.mp body
      subst same
      have below := List.mem_range.mp within
      exact ⟨Int.natCast_nonneg index, by simp only; omega⟩
    · rw [List.mem_singleton.mp last]
      exact ⟨Int.natCast_nonneg len, Int.ofNat_lt.mpr room⟩

/-! ## What the array holds -/

variable {payloadSize : Nat} {array : Vector UInt8 payloadSize}

theorem store_getElem (write : Write) {index : Nat} (below : index < payloadSize) :
    (store array write)[index] = if write.index = index then write.value else array[index] := by
  unfold store
  by_cases here : write.index = index
  · simp only [here, if_true, Int.natCast_nonneg, Int.toNat_natCast, Vector.getElem_setIfInBounds_self]
  · by_cases nonnegative : 0 ≤ write.index
    · have other : write.index.toNat ≠ index := by omega
      simp only [here, nonnegative, if_true, if_false, Vector.getElem_setIfInBounds_ne below other]
    · simp only [here, nonnegative, if_false]

/-- A place that some write reaches holds one of the values written there. -/
theorem foldl_store_getElem {values : List UInt8} {index : Nat} (below : index < payloadSize) {writes : List Write}
    (allowed : ∀ write ∈ writes, write.index = index → write.value ∈ values)
    (reached : array[index] ∈ values ∨ ∃ write ∈ writes, write.index = index) :
    (writes.foldl store array)[index] ∈ values := by
  induction writes generalizing array with
  | nil => exact reached.resolve_right (by simp)
  | cons write rest ih =>
      refine ih (fun other member => allowed other (List.mem_cons_of_mem _ member)) ?_
      rw [store_getElem write below]
      by_cases here : write.index = index
      · rw [if_pos here]
        exact .inl (allowed write List.mem_cons_self here)
      · rw [if_neg here]
        refine reached.imp_right fun hit => ?_
        obtain ⟨other, member, same⟩ := hit
        rcases List.mem_cons.mp member with first | later
        · exact absurd (first ▸ same) here
        · exact ⟨other, later, same⟩

/-- The terminator does not fall on any of the places that the loop fills. -/
theorem filled_characters (bound : payloadSize < 2 ^ 31) {index : Nat} (below : index < payloadSize) :
    (filled rand array)[index] ∈ alphanum := by
  refine foldl_store_getElem below (fun write member here => ?_) (.inr ?_)
  · rw [genRandom_eq bound] at member
    rcases List.mem_append.mp member with body | last
    · obtain ⟨place, _, same⟩ := List.mem_map.mp body
      rw [← same]
      exact randomCharacter_mem _
    · rw [List.mem_singleton.mp last] at here
      have past : payloadSize = index := Int.ofNat_inj.mp here
      omega
  · refine ⟨⟨index, randomCharacter (rand index)⟩, ?_, rfl⟩
    rw [genRandom_eq bound]
    exact List.mem_append_left _ (List.mem_map.mpr ⟨index, List.mem_range.mpr below, rfl⟩)

theorem contentBlock_length : (contentBlock rand array).length = payloadSize := Vector.length_toList

/-- The server carries a content of its payload size. -/
theorem server_content_length (ndn : NdnCxx) (options : Options) (rand : Nat → Nat)
    (chararray : Vector UInt8 options.payloadSize) :
    (options.server ndn (contentBlock rand chararray)).content.length =
      (options.server ndn (contentBlock rand chararray)).payloadSize :=
  contentBlock_length

/-- The rest of what is asked of the payload holds; an array with one place more would do. -/
theorem payloadInside_iff (bound : payloadSize < 2 ^ 31) :
    PayloadInside rand array ↔ ∀ write ∈ genRandom rand payloadSize, 0 ≤ write.index ∧ write.index < payloadSize :=
  ⟨PayloadInside.inside, fun inside => ⟨inside, fun _ below => filled_characters bound below, contentBlock_length⟩⟩

/-- Whatever payload size `main` accepts, the terminator is written behind the array. -/
theorem payload_outside (options : Options) (rand : Nat → Nat) (chararray : Vector UInt8 options.payloadSize) :
    ¬PayloadInside rand chararray := by
  intro valid
  have last := (valid.inside _ terminator_mem).2
  exact Int.lt_irrefl _ last

/-- A payload of four bytes. -/
theorem four_bytes_outside :
    ((parseOptions [ascii "-c", ascii "4"] (Options.default 2)).map Options.payloadSize = some 4) ∧
      ¬PayloadInside (fun _ => 0) (Vector.replicate 4 0) := by
  refine ⟨by decide, fun valid => ?_⟩
  have last := (valid.inside { index := 4, value := 0 } (by decide)).2
  exact Int.lt_irrefl _ last

end Ndnperf.Cxx.Server

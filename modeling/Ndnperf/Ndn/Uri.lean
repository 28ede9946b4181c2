import Ndnperf.Library.Percent
import Ndnperf.Ndn.Name

namespace Ndnperf.Ndn

open Library

/-! How both NDN libraries write components in URIs. -/

def slash : UInt8 := 47

/-- The value is percent-encoded, with three periods in front if it is made of
periods only, and with a label in front if the component is no generic one. -/
structure WritesComponents (kept : UInt8 → Bool) (uri : Component → Bytes) : Prop where
  generic : ∀ value, uri (.generic value) =
    (if value.all (· == period) then ascii "..." else []) ++ Percent.encode kept value
  typed : ∀ component, component.type ≠ Component.genericType → ∃ label text, slash ∉ label ∧ slash ∉ text ∧
    uri component = label ++ 61 :: text

/-- The bytes that a library must escape, and the one that it must not. -/
structure Escapes (kept : UInt8 → Bool) : Prop where
  percent : kept Percent.percent = false
  slash : kept slash = false
  period : kept period = true

theorem escapes_unreserved : Escapes unreserved := ⟨by decide, by decide, by decide⟩

variable {kept : UInt8 → Bool} {uri : Component → Bytes} {value : Bytes}

theorem slash_notMem_encode (escapes : Escapes kept) (value : Bytes) : slash ∉ Percent.encode kept value := by
  apply Percent.symbol_notMem_encode escapes.slash
  have table : ∀ code : Fin 256, slash ∉ Percent.triple (UInt8.ofNat code) := by decide +kernel
  intro byte
  simpa using table ⟨byte.toNat, byte.toNat_lt⟩

/-- A path component that leads nowhere but to an entry of its directory. -/
structure Entry (text : Bytes) : Prop where
  single : slash ∉ text
  nonempty : text ≠ []
  inside : text ≠ ascii ".."

theorem encode_ne_parent (distinct : value.all (· == period) = false) : Percent.encode kept value ≠ ascii ".." := by
  obtain ⟨byte, member, different⟩ := List.all_eq_false.mp distinct
  intro same
  have written : ∀ symbol ∈ Percent.escape kept byte, symbol = period := by
    intro symbol inside
    have found : symbol ∈ ascii ".." := same ▸ List.mem_flatMap.mpr ⟨byte, member, inside⟩
    simpa [ascii, period] using found
  unfold Percent.escape at written
  split at written
  · exact different (by simpa using written byte (List.mem_singleton_self _))
  · exact absurd (written Percent.percent List.mem_cons_self) (by decide)

/-- Whatever bytes and types a component has, its URI is an entry of a directory. -/
theorem WritesComponents.entry (writes : WritesComponents kept uri) (escapes : Escapes kept) (component : Component) :
    Entry (uri component) := by
  by_cases generic : component.type = Component.genericType
  · obtain ⟨type, value⟩ := component
    obtain rfl : type = Component.genericType := generic
    change Entry (uri (.generic value))
    rw [writes.generic]
    have clean := slash_notMem_encode escapes value
    cases periods : value.all (· == period) with
    | true => exact ⟨by simpa [ascii, slash] using clean, by simp [ascii], by simp [ascii]⟩
    | false =>
        have nonempty : value ≠ [] := by
          rintro rfl
          cases periods
        exact ⟨clean, Percent.encode_ne_nil nonempty, encode_ne_parent periods⟩
  · obtain ⟨label, text, left, right, written⟩ := writes.typed component generic
    rw [written]
    refine ⟨by simpa [slash] using And.intro left right, by simp, fun same => ?_⟩
    have found : (61 : UInt8) ∈ ascii ".." := same ▸ by simp
    exact absurd found (by decide)

/-! A concrete writer. The label of a component that is no generic one is its type number. -/

def writeComponent (kept : UInt8 → Bool) (component : Component) : Bytes :=
  if component.type = Component.genericType then
    (if component.value.all (· == period) then ascii "..." else []) ++ Percent.encode kept component.value
  else ascii (toString component.type) ++ 61 :: Percent.encode kept component.value

theorem slash_notMem_number (number : Nat) : slash ∉ ascii (toString number) := by
  intro member
  obtain ⟨letter, inside, same⟩ := List.mem_map.mp member
  have digits : (toString number).toList = Nat.toDigits 10 number := by simp [toString, Nat.repr]
  have digit := Nat.isDigit_of_mem_toDigits (by decide) (by decide) (digits ▸ inside)
  simp only [Char.isDigit, Bool.and_eq_true, decide_eq_true_eq] at digit
  have code : letter.toNat % 256 = 47 := by simpa [slash] using congrArg UInt8.toNat same
  have lower : 48 ≤ letter.toNat := UInt32.le_iff_toNat_le.mp digit.1
  have upper : letter.toNat ≤ 57 := UInt32.le_iff_toNat_le.mp digit.2
  omega

theorem writesComponents_writeComponent (escapes : Escapes kept) : WritesComponents kept (writeComponent kept) where
  generic _ := if_pos rfl
  typed component typed := ⟨ascii (toString component.type), _, slash_notMem_number _,
    slash_notMem_encode escapes component.value, if_neg typed⟩

theorem writeComponent_plain (text : Bytes) (plain : Plain text) :
    writeComponent unreserved (.generic text) = text := by
  obtain ⟨stands, byte, member, different⟩ := plain_iff.mp plain
  have padded : text.all (· == period) = false := List.all_eq_false.mpr ⟨byte, member, by simpa using different⟩
  simp [writeComponent, Component.generic, padded, Percent.encode_kept stands]

end Ndnperf.Ndn

import Mathlib.Data.List.Basic
import Mathlib.Tactic.NormNum

namespace Ndnperf.Java

abbrev Text := List Char

/-- `"" + value` for a `long`. -/
def decimal (value : Int) : Text :=
  if value < 0 then '-' :: Nat.toDigits 10 value.natAbs else Nat.toDigits 10 value.natAbs

def parseDigits (digits : Text) : Option Nat :=
  if digits ≠ [] ∧ digits.all Char.isDigit then some (Nat.ofDigitChars 10 digits 0) else none

/-- A number that a `long` can hold. -/
def inLong (value : Int) : Option Int :=
  if -9223372036854775808 ≤ value ∧ value < 9223372036854775808 then some value else none

/-- `Long.parseLong`, for ASCII digits; `none` is a `NumberFormatException`. -/
def parseLong : Text → Option Int
  | '-' :: digits => (parseDigits digits).bind fun magnitude => inLong (-magnitude)
  | '+' :: digits => (parseDigits digits).bind fun magnitude => inLong magnitude
  | digits => (parseDigits digits).bind fun magnitude => inLong magnitude

theorem parseLong_lt {text : Text} {value : Int} (parsed : parseLong text = some value) : value < 2 ^ 63 := by
  have bounded : ∀ {digits : Text} {number : Nat → Int},
      ((parseDigits digits).bind fun magnitude => inLong (number magnitude)) = some value → value < 2 ^ 63 := by
    intro digits number bound
    obtain ⟨magnitude, _, kept⟩ := Option.bind_eq_some_iff.mp bound
    simp only [inLong, Option.ite_none_right_eq_some, Option.some.injEq] at kept
    omega
  unfold parseLong at parsed
  split at parsed <;> exact bounded parsed

theorem isDigit_of_mem {value : Nat} {letter : Char} (member : letter ∈ Nat.toDigits 10 value) : letter.isDigit :=
  Nat.isDigit_of_mem_toDigits (by decide) (by decide) member

theorem parseDigits_toDigits (value : Nat) : parseDigits (Nat.toDigits 10 value) = some value := by
  rw [parseDigits, if_pos ⟨Nat.toDigits_ne_nil, List.all_eq_true.mpr fun _ => isDigit_of_mem⟩,
    Nat.ofDigitChars_ten_toDigits]

theorem parseLong_decimal {value : Int} (lower : -2 ^ 63 ≤ value) (upper : value < 2 ^ 63) :
    parseLong (decimal value) = some value := by
  by_cases negative : value < 0
  · have magnitude : -(value.natAbs : Int) = value := by omega
    simp only [decimal, if_pos negative, parseLong, parseDigits_toDigits, Option.bind_some, magnitude, inLong]
    exact if_pos ⟨lower, upper⟩
  · have magnitude : (value.natAbs : Int) = value := by omega
    rw [decimal, if_neg negative]
    have parsed := parseDigits_toDigits value.natAbs
    have unsigned : ∀ letter ∈ Nat.toDigits 10 value.natAbs, letter ≠ '-' ∧ letter ≠ '+' := by
      intro letter member
      have digit : letter.isDigit := isDigit_of_mem member
      constructor <;> rintro rfl <;> revert digit <;> decide
    unfold parseLong
    split
    · rename_i found
      exact ((unsigned '-' (found ▸ List.mem_cons_self)).1 rfl).elim
    · rename_i found
      exact ((unsigned '+' (found ▸ List.mem_cons_self)).2 rfl).elim
    · rw [parsed, Option.bind_some, magnitude, inLong, if_pos ⟨lower, upper⟩]

theorem decimal_ascii (value : Int) : ∀ letter ∈ decimal value, letter.toNat < 128 := by
  have digits : ∀ magnitude, ∀ letter ∈ Nat.toDigits 10 magnitude, letter.toNat < 128 := by
    intro magnitude letter member
    have digit : letter.isDigit := isDigit_of_mem member
    simp only [Char.isDigit, Bool.and_eq_true, decide_eq_true_eq] at digit
    have upper : letter.toNat ≤ 57 := UInt32.le_iff_toNat_le.mp digit.2
    omega
  intro letter member
  unfold decimal at member
  split at member
  · rcases List.mem_cons.mp member with rfl | member
    · decide
    · exact digits _ letter member
  · exact digits _ letter member

end Ndnperf.Java

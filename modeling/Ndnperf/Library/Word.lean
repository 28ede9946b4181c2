import Mathlib.Data.Int.Basic
import Mathlib.Tactic.NormNum

namespace Library.Word

/-! Conversions between the fixed-width integer types of C++ and Java, on mathematical integers. -/

def int32 (value : Int) : Int := value.bmod (2 ^ 32)

def int64 (value : Int) : Int := value.bmod (2 ^ 64)

def uint32 (value : Int) : Nat := (value % 2 ^ 32).toNat

def uint64 (value : Int) : Nat := (value % 2 ^ 64).toNat

theorem int32_of_bounds {value : Int} (lower : -2 ^ 31 ≤ value) (upper : value < 2 ^ 31) :
    int32 value = value :=
  Int.bmod_eq_of_le (by norm_num at lower ⊢; omega) (by norm_num at upper ⊢; omega)

theorem int32_lt (value : Int) : int32 value < 2 ^ 31 := by
  have upper := @Int.bmod_lt value (2 ^ 32) (by norm_num)
  norm_num at upper ⊢
  exact upper

theorem int32_add_int32 (left right : Int) : int32 (int32 left + int32 right) = int32 (left + right) := by
  simp only [int32, Int.bmod_add_bmod, Int.add_bmod_bmod]

theorem int32_int32_add (left right : Int) : int32 (int32 left + right) = int32 (left + right) := Int.bmod_add_bmod

theorem int32_neg_int32 (value : Int) : int32 (-int32 value) = int32 (-value) := Int.bmod_neg_bmod

theorem int64_of_bounds {value : Int} (lower : -2 ^ 63 ≤ value) (upper : value < 2 ^ 63) :
    int64 value = value :=
  Int.bmod_eq_of_le (by norm_num at lower ⊢; omega) (by norm_num at upper ⊢; omega)

theorem int64_eq_emod (value : Int) :
    int64 value = if value % 2 ^ 64 < 2 ^ 63 then value % 2 ^ 64 else value % 2 ^ 64 - 2 ^ 64 := by
  simp only [int64, Int.bmod]
  norm_num

theorem int64_bounds (value : Int) : -2 ^ 63 ≤ int64 value ∧ int64 value < 2 ^ 63 := by
  rw [int64_eq_emod]
  split <;> omega

theorem int64_neg_iff {value : Int} : int64 value < 0 ↔ 2 ^ 63 ≤ value % 2 ^ 64 := by
  rw [int64_eq_emod]
  split <;> omega

theorem int64_natCast {value : Nat} (bound : value < 2 ^ 64) :
    int64 value = if value < 2 ^ 63 then (value : Int) else value - 2 ^ 64 := by
  simp only [int64, Int.bmod]
  norm_num
  split <;> split <;> omega

theorem uint64_natCast (value : Nat) : uint64 value = value % 2 ^ 64 := by
  simp only [uint64]
  omega

theorem uint64_of_bounds {value : Int} (lower : 0 ≤ value) (upper : value < 2 ^ 64) :
    uint64 value = value.toNat := by
  simp only [uint64]
  omega

/-- What survives a trip through a 32-bit integer: numbers that it holds, and
those that are the sign extension of a negative one. -/
theorem uint64_int32_iff {value : Nat} (bound : value < 2 ^ 64) :
    uint64 (int32 value) = value ↔ value < 2 ^ 31 ∨ 2 ^ 64 - 2 ^ 31 ≤ value := by
  simp only [uint64, int32, Int.bmod]
  norm_num at bound ⊢
  split <;> omega

end Library.Word

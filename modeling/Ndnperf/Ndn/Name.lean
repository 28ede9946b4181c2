import Mathlib.Data.List.Basic

namespace Ndnperf.Ndn

/-! NDN names as both programs see them: sequences of typed components. -/

abbrev Bytes := List UInt8

structure Component where
  type : Nat
  value : Bytes
deriving DecidableEq, Repr

namespace Component

/-- The type number of components made from plain text. -/
def genericType : Nat := 8

def generic (value : Bytes) : Component := { type := genericType, value }

end Component

abbrev Name := List Component

def ascii (text : String) : Bytes := text.toList.map fun letter => UInt8.ofNat letter.toNat

def period : UInt8 := 46

/-- ASCII letters, digits and `- . _ ~`, which URIs never escape. -/
def unreserved (byte : UInt8) : Bool :=
  (48 ≤ byte && byte ≤ 57) || (65 ≤ byte && byte ≤ 90) || (97 ≤ byte && byte ≤ 122) ||
    byte == 45 || byte == period || byte == 95 || byte == 126

/-- Text that is its own URI: nothing to escape, and not made of periods only. -/
def Plain (text : Bytes) : Prop := text.all unreserved ∧ text.any (· != period)

instance (text : Bytes) : Decidable (Plain text) := inferInstanceAs (Decidable (_ ∧ _))

theorem plain_iff {text : Bytes} : Plain text ↔ (∀ byte ∈ text, unreserved byte) ∧ ∃ byte ∈ text, byte ≠ period := by
  simp [Plain]

end Ndnperf.Ndn

import Mathlib.Data.List.Basic
import Mathlib.Tactic.NormNum

namespace Library.Percent

/-! Percent-encoding of byte strings. `kept` says which bytes stand for
themselves; a percent sign never should. -/

def percent : UInt8 := 37

def hexDigit (value : Nat) : UInt8 := UInt8.ofNat (if value < 10 then 48 + value else 55 + value)

/-- A digit in either case. -/
def hexValue (byte : UInt8) : Option Nat :=
  if 48 ≤ byte ∧ byte ≤ 57 then some (byte.toNat - 48)
  else if 65 ≤ byte ∧ byte ≤ 70 then some (byte.toNat - 55)
  else if 97 ≤ byte ∧ byte ≤ 102 then some (byte.toNat - 87)
  else none

/-- The three bytes that stand for one byte. -/
def triple (byte : UInt8) : List UInt8 := [percent, hexDigit (byte.toNat / 16), hexDigit (byte.toNat % 16)]

def escape (kept : UInt8 → Bool) (byte : UInt8) : List UInt8 := if kept byte then [byte] else triple byte

def encode (kept : UInt8 → Bool) (text : List UInt8) : List UInt8 := text.flatMap (escape kept)

/-- Three bytes that begin like an escape and are none stay as they are. -/
def decode : List UInt8 → List UInt8
  | 37 :: high :: low :: rest =>
      match hexValue high, hexValue low with
      | some left, some right => UInt8.ofNat (left * 16 + right) :: decode rest
      | _, _ => 37 :: high :: low :: decode rest
  | byte :: rest => byte :: decode rest
  | [] => []

/-- Every byte is one that stands for itself, or part of an upper-case escape
of one that does not. -/
def Canonical (kept : UInt8 → Bool) : List UInt8 → Prop
  | 37 :: high :: low :: rest => (∃ byte, kept byte = false ∧ triple byte = [percent, high, low]) ∧ Canonical kept rest
  | byte :: rest => kept byte = true ∧ Canonical kept rest
  | [] => True

variable {kept : UInt8 → Bool} {symbol byte high low : UInt8} {text rest : List UInt8}

theorem hexValue_hexDigit {value : Nat} (small : value < 16) : hexValue (hexDigit value) = some value := by
  have table : ∀ digit : Fin 16, hexValue (hexDigit digit) = some digit.val := by decide
  exact table ⟨value, small⟩

/-- The digits say which byte was escaped. -/
theorem triple_eq (same : triple byte = [percent, high, low]) :
    hexValue high = some (byte.toNat / 16) ∧ hexValue low = some (byte.toNat % 16) := by
  have bound := byte.toNat_lt
  simp only [triple, List.cons.injEq, and_true, true_and] at same
  obtain ⟨rfl, rfl⟩ := same
  exact ⟨hexValue_hexDigit (by omega), hexValue_hexDigit (by omega)⟩

theorem ofNat_digits (byte : UInt8) : UInt8.ofNat (byte.toNat / 16 * 16 + byte.toNat % 16) = byte := by
  have whole : byte.toNat / 16 * 16 + byte.toNat % 16 = byte.toNat := by omega
  rw [whole]
  exact UInt8.ofNat_toNat

theorem decode_triple (byte : UInt8) (rest : List UInt8) : decode (triple byte ++ rest) = byte :: decode rest := by
  obtain ⟨left, right⟩ := @triple_eq byte _ _ rfl
  change decode (37 :: hexDigit (byte.toNat / 16) :: hexDigit (byte.toNat % 16) :: rest) = _
  rw [decode, left, right]
  simp only [ofNat_digits]

theorem decode_cons (other : byte ≠ 37) : decode (byte :: rest) = byte :: decode rest := by
  rw [decode]
  exact fun _ _ _ same => absurd same other

theorem decode_encode (unkept : kept percent = false) (text : List UInt8) : decode (encode kept text) = text := by
  induction text with
  | nil => rfl
  | cons byte rest ih =>
      change decode (escape kept byte ++ encode kept rest) = _
      unfold escape
      split
      · rename_i stands
        have other : byte ≠ 37 := by
          rintro rfl
          exact absurd (unkept.symm.trans stands) (by decide)
        rw [List.singleton_append, decode_cons other, ih]
      · rw [decode_triple, ih]

/-- A byte that is escaped does not occur in what is encoded, unless escapes are made of it. -/
theorem symbol_notMem_encode (unkept : kept symbol = false) (apart : ∀ byte, symbol ∉ triple byte) (text : List UInt8) :
    symbol ∉ encode kept text := by
  intro member
  obtain ⟨byte, _, inside⟩ := List.mem_flatMap.mp member
  unfold escape at inside
  split at inside
  · rename_i stands
    rw [List.mem_singleton.mp inside, stands] at unkept
    cases unkept
  · exact apart byte inside

theorem encode_ne_nil (nonempty : text ≠ []) : encode kept text ≠ [] := by
  obtain ⟨byte, rest, rfl⟩ := List.exists_cons_of_ne_nil nonempty
  change escape kept byte ++ encode kept rest ≠ []
  unfold escape
  split <;> simp [triple]

theorem encode_kept (kept_all : ∀ byte ∈ text, kept byte = true) : encode kept text = text := by
  have alone : text.flatMap (escape kept) = text.flatMap fun byte => [byte] :=
    List.flatMap_congr fun byte member => by simp [escape, kept_all byte member]
  rw [encode, alone]
  simp

/-- The texts that survive being decoded and encoded again. -/
theorem encode_decode_iff (unkept : kept percent = false) (text : List UInt8) :
    encode kept (decode text) = text ↔ Canonical kept text := by
  induction text using decode.induct with
  | case1 high low rest left right lowValue highValue ih =>
      simp only [decode, highValue, lowValue, Canonical, ← ih]
      change escape kept (UInt8.ofNat (left * 16 + right)) ++ encode kept (decode rest) = _ ↔ _
      generalize named : UInt8.ofNat (left * 16 + right) = byte
      constructor
      · intro same
        unfold escape at same
        split at same
        · rename_i stands
          obtain rfl := (List.cons.inj same).1
          exact absurd (unkept.symm.trans stands) (by decide)
        · rename_i escaped
          simp only [triple, List.cons_append, List.nil_append, List.cons.injEq] at same
          obtain ⟨_, rfl, rfl, remaining⟩ := same
          exact ⟨⟨byte, by simpa using escaped, rfl⟩, remaining⟩
      · rintro ⟨⟨escaped, unkept, digits⟩, remaining⟩
        obtain ⟨leftDigit, rightDigit⟩ := triple_eq digits
        rw [highValue, Option.some.injEq] at leftDigit
        rw [lowValue, Option.some.injEq] at rightDigit
        have same : byte = escaped := by rw [← named, leftDigit, rightDigit, ofNat_digits]
        rw [same, escape, if_neg (by simp [unkept]), digits, remaining]
        rfl
  | case2 high low rest invalid ih =>
      have unread : decode (37 :: high :: low :: rest) = 37 :: high :: low :: decode rest := by
        rw [decode]
        split
        · rename_i left right
          exact (invalid _ _ left right).elim
        · rfl
      rw [unread, Canonical]
      refine iff_of_false (fun same => ?_) (fun canonical => ?_)
      · change escape kept percent ++ _ = _ at same
        rw [escape, if_neg (by simp [unkept])] at same
        simp only [triple, List.cons_append, List.cons.injEq] at same
        obtain ⟨_, rfl, rfl, _⟩ := same
        exact invalid 2 5 (by decide) (by decide)
      · obtain ⟨⟨byte, _, digits⟩, _⟩ := canonical
        obtain ⟨leftDigit, rightDigit⟩ := triple_eq digits
        exact invalid _ _ leftDigit rightDigit
  | case3 byte rest single ih =>
      rw [decode, Canonical, ← ih]
      · change escape kept byte ++ encode kept (decode rest) = byte :: rest ↔ _
        unfold escape
        split
        · rename_i stands
          simp [stands]
        · rename_i escaped
          refine iff_of_false (fun same => ?_) (fun canonical => escaped canonical.1)
          simp only [triple, List.cons_append, List.cons.injEq] at same
          exact single _ _ _ same.1.symm same.2.symm
      · exact single
      · exact single
  | case4 => exact iff_of_true rfl trivial

end Library.Percent

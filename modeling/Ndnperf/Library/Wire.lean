import Mathlib.Data.List.Basic
import Mathlib.Data.List.Induction
import Mathlib.Tactic.Ring
import Ndnperf.Library.Outcome

namespace Library.Wire

/-! Big-endian words, and a fixed-capacity byte buffer with a position and a limit. -/

def bigEndian : Nat → Nat → List UInt8
  | 0, _ => []
  | width + 1, value => UInt8.ofNat (value / 256 ^ width % 256) :: bigEndian width value

def ofBigEndian (bytes : List UInt8) : Nat := bytes.foldl (fun value byte => value * 256 + byte.toNat) 0

@[simp] theorem bigEndian_length (width value : Nat) : (bigEndian width value).length = width := by
  induction width with
  | zero => rfl
  | succ width ih => simp [bigEndian, ih]

private theorem foldl_bigEndian (width value start : Nat) :
    (bigEndian width value).foldl (fun value byte => value * 256 + byte.toNat) start =
      start * 256 ^ width + value % 256 ^ width := by
  induction width generalizing start with
  | zero => simp [bigEndian, Nat.mod_one]
  | succ width ih =>
      simp only [bigEndian, List.foldl_cons, ih, UInt8.toNat_ofNat']
      have digit : value / 256 ^ width % 256 % 2 ^ 8 = value / 256 ^ width % 256 := by omega
      rw [digit, Nat.pow_succ, Nat.mod_mul]
      ring

theorem ofBigEndian_bigEndian (width value : Nat) : ofBigEndian (bigEndian width value) = value % 256 ^ width := by
  simpa [ofBigEndian] using foldl_bigEndian width value 0

/-- The bytes a number takes when only 1, 2, 4 and 8 are allowed. -/
def shortWidth (value : Nat) : Nat :=
  if value < 2 ^ 8 then 1 else if value < 2 ^ 16 then 2 else if value < 2 ^ 32 then 4 else 8

theorem shortWidth_cases (value : Nat) : shortWidth value ∈ [1, 2, 4, 8] := by
  unfold shortWidth
  split <;> [skip; split <;> [skip; split]] <;> simp

theorem ofBigEndian_lt (bytes : List UInt8) : ofBigEndian bytes < 256 ^ bytes.length := by
  induction bytes using List.reverseRecOn with
  | nil => decide
  | append_singleton bytes byte ih =>
      have small := byte.toNat_lt
      have appended : ofBigEndian (bytes ++ [byte]) = ofBigEndian bytes * 256 + byte.toNat := by
        simp [ofBigEndian]
      rw [appended, List.length_append, List.length_singleton, Nat.pow_succ]
      omega

theorem ofBigEndian_shortWidth {value : Nat} (bound : value < 2 ^ 64) :
    ofBigEndian (bigEndian (shortWidth value) value) = value := by
  rw [ofBigEndian_bigEndian]
  apply Nat.mod_eq_of_lt
  unfold shortWidth
  split <;> [skip; split <;> [skip; split]] <;> omega

inductive Fault where
  | overflow
  | underflow
  | negativeSize
deriving DecidableEq, Repr

structure ByteBuffer where
  array : List UInt8
  position : Nat
  limit : Nat
  position_le : position ≤ limit
  limit_le : limit ≤ array.length

namespace ByteBuffer

def allocate (capacity : Int) : Except Fault ByteBuffer :=
  if capacity < 0 then .error .negativeSize
  else .ok {
    array := List.replicate capacity.toNat 0
    position := 0
    limit := capacity.toNat
    position_le := Nat.zero_le _
    limit_le := by simp }

def remaining (buffer : ByteBuffer) : Nat := buffer.limit - buffer.position

def written (buffer : ByteBuffer) : List UInt8 := buffer.array.take buffer.position

def unread (buffer : ByteBuffer) : List UInt8 := (buffer.array.take buffer.limit).drop buffer.position

theorem splice_length {array bytes : List UInt8} {position : Nat} (fits : position + bytes.length ≤ array.length) :
    (array.take position ++ bytes ++ array.drop (position + bytes.length)).length = array.length := by
  simp only [List.length_append, List.length_take, List.length_drop]
  omega

def put (buffer : ByteBuffer) (bytes : List UInt8) : Except Fault ByteBuffer :=
  if fits : buffer.position + bytes.length ≤ buffer.limit then .ok {
    array := buffer.array.take buffer.position ++ bytes ++ buffer.array.drop (buffer.position + bytes.length)
    position := buffer.position + bytes.length
    limit := buffer.limit
    position_le := fits
    limit_le := by rw [splice_length (fits.trans buffer.limit_le)]; exact buffer.limit_le }
  else .error .overflow

def putWord (width value : Nat) (buffer : ByteBuffer) : Except Fault ByteBuffer :=
  buffer.put (bigEndian width value)

def flip (buffer : ByteBuffer) : ByteBuffer where
  array := buffer.array
  position := 0
  limit := buffer.position
  position_le := Nat.zero_le _
  limit_le := buffer.position_le.trans buffer.limit_le

def advance (buffer : ByteBuffer) (count : Nat) (fits : buffer.position + count ≤ buffer.limit) : ByteBuffer where
  array := buffer.array
  position := buffer.position + count
  limit := buffer.limit
  position_le := fits
  limit_le := buffer.limit_le

def get (buffer : ByteBuffer) : Except Fault (UInt8 × ByteBuffer) :=
  if inside : buffer.position + 1 ≤ buffer.limit then
    .ok (buffer.array.get ⟨buffer.position, Nat.lt_of_lt_of_le inside buffer.limit_le⟩, buffer.advance 1 inside)
  else .error .underflow

def getBytes : Nat → ByteBuffer → Except Fault (List UInt8 × ByteBuffer)
  | 0, buffer => .ok ([], buffer)
  | count + 1, buffer => do
      let (byte, afterByte) ← buffer.get
      let (bytes, after) ← getBytes count afterByte
      return (byte :: bytes, after)

def getWord (width : Nat) (buffer : ByteBuffer) : Except Fault (Nat × ByteBuffer) :=
  if fits : buffer.position + width ≤ buffer.limit then
    .ok (ofBigEndian (buffer.unread.take width), buffer.advance width fits)
  else .error .underflow

/-! ## Writing

A program writes some bytes if, wherever there is room for them, it succeeds
and puts them behind what was written before.
-/

/-- A buffer of the given capacity whose first bytes have been written. -/
structure Filled (capacity : Nat) (bytes : List UInt8) (buffer : ByteBuffer) : Prop where
  written : buffer.written = bytes
  limit : buffer.limit = capacity
  capacity : buffer.array.length = capacity

variable {α β : Type} {capacity count width value : Nat} {bytes more rest : List UInt8} {buffer : ByteBuffer}

theorem allocate_filled (capacity : Nat) :
    ∃ buffer, allocate capacity = .ok buffer ∧ Filled capacity [] buffer := by
  have nonnegative : ¬(capacity : Int) < 0 := by omega
  exact ⟨_, by simp only [allocate, if_neg nonnegative]; rfl, ⟨rfl, rfl, by simp⟩⟩

theorem Filled.position (filled : Filled capacity bytes buffer) : buffer.position = bytes.length := by
  have within := buffer.position_le.trans buffer.limit_le
  rw [← filled.written, ByteBuffer.written, List.length_take, Nat.min_eq_left within]

theorem Filled.flip_unread (filled : Filled capacity bytes buffer) : buffer.flip.unread = bytes := by
  rw [← filled.written]
  rfl

def Writes (program : ByteBuffer → Except Fault ByteBuffer) (bytes : List UInt8) : Prop :=
  ∀ ⦃capacity earlier buffer⦄, Filled capacity earlier buffer → earlier.length + bytes.length ≤ capacity →
    ∃ after, program buffer = .ok after ∧ Filled capacity (earlier ++ bytes) after

theorem writes_put (bytes : List UInt8) : Writes (·.put bytes) bytes := by
  intro capacity earlier buffer filled room
  have start := filled.position
  have fits : buffer.position + bytes.length ≤ buffer.limit := by rw [start, filled.limit]; exact room
  refine ⟨_, dif_pos fits, ?_, filled.limit, ?_⟩
  · have size : (earlier ++ bytes).length = buffer.position + bytes.length := by simp [start]
    have kept : buffer.array.take buffer.position = earlier := filled.written
    simp only [ByteBuffer.written, kept]
    rw [← size, List.take_left]
  · rw [splice_length (fits.trans buffer.limit_le), filled.capacity]

theorem writes_nothing : Writes .ok [] := fun _ _ buffer filled _ => ⟨buffer, rfl, by simpa using filled⟩

theorem Writes.bind {first second : ByteBuffer → Except Fault ByteBuffer} (left : Writes first bytes)
    (right : Writes second more) : Writes (fun buffer => first buffer >>= second) (bytes ++ more) := by
  intro capacity earlier buffer filled room
  rw [List.length_append] at room
  obtain ⟨middle, started, filled⟩ := left filled (by omega)
  obtain ⟨after, finished, filled⟩ := right filled (by rw [List.length_append]; omega)
  refine ⟨after, ?_, by rwa [List.append_assoc] at filled⟩
  simp only [started, finished, Bind.bind, Except.bind]

/-- Writing into an array of just the right size leaves no tail unwritten. -/
theorem Writes.allocated {program : ByteBuffer → Except Fault ByteBuffer} (writes : Writes program bytes) :
    ∃ buffer, allocate bytes.length >>= program = .ok buffer ∧ buffer.array = bytes ∧
      buffer.position = buffer.array.length := by
  obtain ⟨empty, allocated, filled⟩ := allocate_filled bytes.length
  obtain ⟨buffer, finished, filled⟩ := writes filled (by simp)
  rw [List.nil_append] at filled
  have start := filled.position
  refine ⟨buffer, by simp only [allocated, finished, Bind.bind, Except.bind], ?_, by rw [start, filled.capacity]⟩
  rw [← filled.written, ByteBuffer.written, start, ← filled.capacity, List.take_length]

/-- A program that succeeds moves the position by a fixed number of bytes. -/
def Advances (program : ByteBuffer → Except Fault ByteBuffer) (count : Nat) : Prop :=
  ∀ ⦃buffer after⦄, program buffer = .ok after → after.position = buffer.position + count ∧ after.limit = buffer.limit

theorem advances_put (bytes : List UInt8) : Advances (·.put bytes) bytes.length := by
  intro buffer after written
  simp only [put] at written
  split at written
  · exact Except.ok.inj written ▸ ⟨rfl, rfl⟩
  · cases written

theorem advances_nothing : Advances .ok 0 := fun _ _ written => Except.ok.inj written ▸ ⟨rfl, rfl⟩

theorem Advances.bind {first second : ByteBuffer → Except Fault ByteBuffer} {counted : Nat}
    (left : Advances first count) (right : Advances second counted) :
    Advances (fun buffer => first buffer >>= second) (count + counted) := by
  intro buffer after written
  obtain ⟨middle, started, finished⟩ := Outcome.bind_eq_ok.mp written
  obtain ⟨position, limit⟩ := left started
  obtain ⟨positions, limits⟩ := right finished
  exact ⟨by omega, limits.trans limit⟩

/-- A program that succeeds on a new buffer had room for everything it wrote. -/
theorem Advances.room {program : ByteBuffer → Except Fault ByteBuffer} {size : Int} (advances : Advances program count)
    (written : allocate size >>= program = .ok buffer) : (count : Int) ≤ size := by
  obtain ⟨empty, allocated, finished⟩ := Outcome.bind_eq_ok.mp written
  obtain ⟨position, limit⟩ := advances finished
  have within := buffer.position_le
  simp only [allocate] at allocated
  split at allocated
  · cases allocated
  · cases allocated
    simp only at position limit
    omega

/-! ## Reading

A program reads a value off some bytes if, wherever they come next, it returns
the value and leaves what follows them.
-/

theorem unread_length (buffer : ByteBuffer) : buffer.unread.length = buffer.limit - buffer.position := by
  have within := buffer.limit_le
  simp only [unread, List.length_drop, List.length_take]
  omega

theorem advance_unread (fits : buffer.position + count ≤ buffer.limit) :
    (buffer.advance count fits).unread = buffer.unread.drop count := by
  simp only [unread, advance, List.drop_drop]

def Reads (program : ByteBuffer → Except Fault (α × ByteBuffer)) (value : α) (bytes : List UInt8) : Prop :=
  ∀ ⦃rest buffer⦄, buffer.unread = bytes ++ rest →
    ∃ after, program buffer = .ok (value, after) ∧ after.unread = rest

theorem reads_get (byte : UInt8) : Reads get byte [byte] := by
  intro rest buffer next
  have size := unread_length buffer
  rw [next, List.singleton_append, List.length_cons] at size
  have inside : buffer.position + 1 ≤ buffer.limit := by omega
  have bound : buffer.position < buffer.array.length := Nat.lt_of_lt_of_le inside buffer.limit_le
  have here : buffer.array.get ⟨buffer.position, bound⟩ = byte := by
    have first := congrArg (fun bytes => bytes[0]?) next
    rw [unread, List.getElem?_drop, Nat.add_zero, List.getElem?_take_of_lt inside] at first
    exact (List.getElem?_eq_some_iff.mp (by simpa using first)).2
  refine ⟨_, by rw [get, dif_pos inside, here], ?_⟩
  rw [advance_unread, next]
  rfl

theorem reads_pure (value : α) : Reads (fun buffer => pure (value, buffer)) value [] :=
  fun _ buffer next => ⟨buffer, rfl, next⟩

theorem Reads.bind {first : ByteBuffer → Except Fault (α × ByteBuffer)}
    {found : α} {result : β} (left : Reads first found bytes)
    (second : α → ByteBuffer → Except Fault (β × ByteBuffer)) (right : Reads (second found) result more) :
    Reads (fun buffer => first buffer >>= fun pair => second pair.1 pair.2) result (bytes ++ more) := by
  intro rest buffer next
  rw [List.append_assoc] at next
  obtain ⟨middle, started, next⟩ := left next
  obtain ⟨after, finished, next⟩ := right next
  exact ⟨after, by simp only [started, finished, Bind.bind, Except.bind], next⟩

theorem Reads.map {program : ByteBuffer → Except Fault (α × ByteBuffer)} {found : α}
    (reads : Reads program found bytes) (convert : α → β) :
    Reads (fun buffer => program buffer >>= fun pair => pure (convert pair.1, pair.2)) (convert found)
      bytes := by
  intro rest buffer next
  obtain ⟨after, finished, next⟩ := reads next
  exact ⟨after, by simp only [finished, Bind.bind, Except.bind]; rfl, next⟩

theorem reads_getBytes (bytes : List UInt8) : Reads (getBytes bytes.length) bytes bytes := by
  induction bytes with
  | nil => exact reads_pure []
  | cons byte bytes ih =>
      exact (reads_get byte).bind
        (fun byte rest => getBytes bytes.length rest >>= fun pair => pure (byte :: pair.1, pair.2)) (ih.map (byte :: ·))

theorem reads_getWord (width value : Nat) : Reads (getWord width) (value % 256 ^ width) (bigEndian width value) := by
  intro rest buffer next
  have size := unread_length buffer
  rw [next, List.length_append, bigEndian_length] at size
  have start := buffer.position_le
  have fits : buffer.position + width ≤ buffer.limit := by omega
  have taken : (bigEndian width value ++ rest).take width = bigEndian width value := by simp
  refine ⟨_, by rw [getWord, dif_pos fits, next, taken, ofBigEndian_bigEndian], ?_⟩
  simp [advance_unread, next]

/-! ## Reading at an offset

What a program reads off a given message, and exactly when it succeeds: with
the message fixed, every value and every end position is a function of it.
-/

/-- The bytes left are those of the message from the offset on. -/
structure Stands (message : List UInt8) (offset : Nat) (buffer : ByteBuffer) : Prop where
  unread : buffer.unread = message.drop offset
  within : offset ≤ message.length

/-- From the offset on the program returns the value and stops where it is
told, under the condition, and fails otherwise. -/
def ReadsAt (message : List UInt8) (offset : Nat) (program : ByteBuffer → Except Fault (α × ByteBuffer))
    (accepts : Prop) (value : α) (stop : Nat) : Prop :=
  ∀ ⦃buffer⦄, Stands message offset buffer →
    (accepts → ∃ after, program buffer = .ok (value, after) ∧ Stands message stop after) ∧
      (Outcome.Succeeds (program buffer) → accepts)

variable {message : List UInt8} {offset middle stop : Nat} {accepts acceptsNext : Prop}

theorem Stands.remaining (stands : Stands message offset buffer) :
    buffer.limit - buffer.position = message.length - offset := by
  rw [← unread_length, stands.unread, List.length_drop]

theorem Stands.fits_iff (stands : Stands message offset buffer) :
    buffer.position + count ≤ buffer.limit ↔ offset + count ≤ message.length := by
  have remaining := stands.remaining
  have start := buffer.position_le
  have within := stands.within
  omega

theorem Stands.advance (stands : Stands message offset buffer) (fits : buffer.position + count ≤ buffer.limit) :
    Stands message (offset + count) (buffer.advance count fits) :=
  ⟨by rw [advance_unread, stands.unread, List.drop_drop], stands.fits_iff.mp fits⟩

theorem readsAt_getWord (width : Nat) : ReadsAt message offset (getWord width) (offset + width ≤ message.length)
    (ofBigEndian ((message.drop offset).take width)) (offset + width) := by
  intro buffer stands
  refine ⟨fun room => ?_, fun read => ?_⟩
  · have fits := stands.fits_iff.mpr room
    exact ⟨_, by rw [getWord, dif_pos fits, stands.unread], stands.advance fits⟩
  · obtain ⟨result, read⟩ := read
    unfold getWord at read
    split at read
    · rename_i fits
      exact stands.fits_iff.mp fits
    · cases read

theorem ReadsAt.inv {program : ByteBuffer → Except Fault (α × ByteBuffer)} {value result : α} {after : ByteBuffer}
    (reads : ReadsAt message offset program accepts value stop) (stands : Stands message offset buffer)
    (read : program buffer = .ok (result, after)) : accepts ∧ result = value ∧ Stands message stop after := by
  have accepted := (reads stands).2 ⟨_, read⟩
  obtain ⟨_, same, ends⟩ := (reads stands).1 accepted
  rw [read, Except.ok.injEq, Prod.mk.injEq] at same
  obtain ⟨rfl, rfl⟩ := same
  exact ⟨accepted, rfl, ends⟩

theorem ReadsAt.bind {first : ByteBuffer → Except Fault (α × ByteBuffer)} {found : α} {result : β}
    (left : ReadsAt message offset first accepts found middle)
    (second : α → ByteBuffer → Except Fault (β × ByteBuffer))
    (right : ReadsAt message middle (second found) acceptsNext result stop) :
    ReadsAt message offset (fun buffer => first buffer >>= fun pair => second pair.1 pair.2) (accepts ∧ acceptsNext)
      result stop := by
  intro buffer stands
  constructor
  · intro accepted
    obtain ⟨middle, started, stands⟩ := (left stands).1 accepted.1
    obtain ⟨after, finished, stands⟩ := (right stands).1 accepted.2
    exact ⟨after, by simp only [started, finished, Bind.bind, Except.bind], stands⟩
  · intro read
    obtain ⟨⟨value, middle⟩, started, rest⟩ := (Outcome.succeeds_bind _).mp read
    obtain ⟨accepted, rfl, stands⟩ := left.inv stands started
    exact ⟨accepted, (right stands).2 rest⟩

theorem ReadsAt.map {program : ByteBuffer → Except Fault (α × ByteBuffer)} {found : α}
    (reads : ReadsAt message offset program accepts found stop) (convert : α → β) :
    ReadsAt message offset (fun buffer => program buffer >>= fun pair => pure (convert pair.1, pair.2)) accepts
      (convert found) stop := by
  intro buffer stands
  constructor
  · intro accepted
    obtain ⟨after, finished, stands⟩ := (reads stands).1 accepted
    exact ⟨after, by simp only [finished, Bind.bind, Except.bind]; rfl, stands⟩
  · intro read
    obtain ⟨_, started, _⟩ := (Outcome.succeeds_bind _).mp read
    exact (reads stands).2 ⟨_, started⟩

theorem ReadsAt.congr {program : ByteBuffer → Except Fault (α × ByteBuffer)} {value result : α}
    (reads : ReadsAt message offset program accepts value middle) (accepted : accepts ↔ acceptsNext)
    (same : accepts → value = result) (ends : middle = stop) :
    ReadsAt message offset program acceptsNext result stop := by
  intro buffer stands
  refine ⟨fun next => ?_, fun read => accepted.mp ((reads stands).2 read)⟩
  have held := accepted.mpr next
  exact same held ▸ ends ▸ (reads stands).1 held

theorem readsAt_get :
    ReadsAt message offset get (offset + 1 ≤ message.length) (message.getD offset 0) (offset + 1) := by
  intro buffer stands
  constructor
  · intro room
    have inside := stands.fits_iff.mpr room
    have bound : buffer.position < buffer.array.length := Nat.lt_of_lt_of_le inside buffer.limit_le
    have here : buffer.array.get ⟨buffer.position, bound⟩ = message.getD offset 0 := by
      have first := congrArg (fun bytes => bytes[0]?) stands.unread
      rw [unread, List.getElem?_drop, Nat.add_zero, List.getElem?_take_of_lt inside, List.getElem?_drop,
        Nat.add_zero] at first
      rw [List.getD_eq_getElem?_getD, ← first, List.getElem?_eq_getElem bound]
      rfl
    exact ⟨_, by rw [get, dif_pos inside, here], stands.advance inside⟩
  · intro read
    obtain ⟨result, read⟩ := read
    unfold get at read
    split at read
    · rename_i inside
      exact stands.fits_iff.mp inside
    · cases read

theorem readsAt_getBytes (count : Nat) : ReadsAt message offset (getBytes count) (offset + count ≤ message.length)
    ((message.drop offset).take count) (offset + count) := by
  induction count generalizing offset with
  | zero => exact fun buffer stands => ⟨fun _ => ⟨buffer, by simp [getBytes], stands⟩, fun _ => stands.within⟩
  | succ count ih =>
      have whole := readsAt_get.bind
        (fun byte rest => getBytes count rest >>= fun pair => pure (byte :: pair.1, pair.2))
        ((@ih (offset + 1)).map (message.getD offset 0 :: ·))
      refine whole.congr (by omega) (fun accepted => ?_) (by omega)
      have inside : offset < message.length := accepted.1
      rw [List.drop_eq_getElem_cons inside, List.take_succ_cons, List.getD_eq_getElem?_getD,
        List.getElem?_eq_getElem inside, Option.getD_some]

end ByteBuffer

end Library.Wire

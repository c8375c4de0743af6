import Mathlib.Logic.Function.Basic
import OlympusFirmware.Lib.Mem

/-!
# The double buffer (`utils/doubleBuffer.c`)

Two halves of one array: the writer appends to the active half, the reader
drains the other one and swaps them when it is empty. The halves live in an
explicit memory; a pointer is an address in it, and `memcpy` from the source is
a store of the source's bytes. Lengths and indices are natural numbers: in every
state that satisfies `Wf` the differences taken are not negative.

`stored` is what the buffer holds, oldest byte first. A write that is accepted
appends to it, a read takes from its front, and a swap does not change it.
-/

namespace OlympusFirmware.Usb

open OlympusFirmware.Lib

/-- `DoubleBuffer_t`. -/
structure DoubleBuffer where
  buffers : Fin 2 → Nat
  bufferLengths : Fin 2 → Nat
  bufferSize : Nat
  readIdx : Nat
  activeBuffer : Fin 2

namespace DoubleBuffer

/-- `doubleBuffer_init`. -/
def init (base bufLen : Nat) : DoubleBuffer where
  buffers := fun half => if half = 0 then base else base + bufLen / 2
  bufferLengths := fun _ => 0
  bufferSize := bufLen / 2
  readIdx := 0
  activeBuffer := 0

/-- `doubleBuffer_switchActive`. -/
def switchActive (b : DoubleBuffer) : DoubleBuffer :=
  if b.activeBuffer = 0 then
    { b with
      bufferLengths := Function.update b.bufferLengths 1 0
      activeBuffer := 1
      readIdx := 0 }
  else
    { b with
      bufferLengths := Function.update b.bufferLengths 0 0
      activeBuffer := 0
      readIdx := 0 }

/-- `doubleBuffer_getInactive`. -/
def getInactive (b : DoubleBuffer) : Fin 2 := if b.activeBuffer = 0 then 1 else 0

/-- `doubleBuffer_write`, with the bytes found at the source. -/
def write (b : DoubleBuffer) (m : Mem UInt8) (data : List UInt8) :
    Bool × DoubleBuffer × Mem UInt8 :=
  let active := b.activeBuffer
  if b.bufferSize - b.bufferLengths active < data.length then
    (false, b, m)
  else
    (true,
      { b with
        bufferLengths :=
          Function.update b.bufferLengths active (b.bufferLengths active + data.length) },
      m.store (b.buffers active + b.bufferLengths active) data)

/-- `doubleBuffer_getReadLength`. -/
def getReadLength (b : DoubleBuffer) : Nat × DoubleBuffer :=
  let len := b.bufferLengths b.getInactive - b.readIdx
  if len = 0 then
    let b := b.switchActive
    (b.bufferLengths b.getInactive - b.readIdx, b)
  else
    (len, b)

/-- `doubleBuffer_read`: the bytes copied out, and the buffer afterwards. -/
def read (b : DoubleBuffer) (m : Mem UInt8) (len : Nat) : List UInt8 × DoubleBuffer :=
  let (bytesAvailable, b) := b.getReadLength
  if 0 < bytesAvailable then
    let numBytesToRead := if len < bytesAvailable then len else bytesAvailable
    (m.load (b.buffers b.getInactive + b.readIdx) numBytesToRead,
      { b with readIdx := b.readIdx + numBytesToRead })
  else
    ([], b)

/-! ## The buffer as a queue -/

/-- The bytes of the inactive half that have not been read. -/
def pending (b : DoubleBuffer) (m : Mem UInt8) : List UInt8 :=
  m.load (b.buffers b.getInactive + b.readIdx) (b.bufferLengths b.getInactive - b.readIdx)

/-- The bytes of the active half. -/
def fresh (b : DoubleBuffer) (m : Mem UInt8) : List UInt8 :=
  m.load (b.buffers b.activeBuffer) (b.bufferLengths b.activeBuffer)

/-- What the buffer holds, oldest byte first. -/
def stored (b : DoubleBuffer) (m : Mem UInt8) : List UInt8 := b.pending m ++ b.fresh m

/-- An address that holds an unread byte. -/
def Unread (b : DoubleBuffer) (a : Nat) : Prop :=
  (b.buffers b.getInactive + b.readIdx ≤ a ∧
    a < b.buffers b.getInactive + b.bufferLengths b.getInactive) ∨
  (b.buffers b.activeBuffer ≤ a ∧
    a < b.buffers b.activeBuffer + b.bufferLengths b.activeBuffer)

instance (b : DoubleBuffer) (a : Nat) : Decidable (b.Unread a) :=
  inferInstanceAs (Decidable (_ ∨ _))

/-- The two halves are adjacent, neither is overfull, and the reader has not
passed the end of its half. -/
structure Wf (b : DoubleBuffer) : Prop where
  halves : b.buffers 1 = b.buffers 0 + b.bufferSize
  lengths : ∀ half, b.bufferLengths half ≤ b.bufferSize
  readIdx_le : b.readIdx ≤ b.bufferLengths b.getInactive

theorem init_wf (base bufLen : Nat) : (init base bufLen).Wf := by
  refine ⟨?_, ?_, ?_⟩ <;> simp [init]

@[simp] theorem stored_init (base bufLen : Nat) (m : Mem UInt8) :
    (init base bufLen).stored m = [] := by
  simp [stored, pending, fresh, init]

/-- The swap gives the inactive half to the writer, empty. -/
theorem switchActive_eq (b : DoubleBuffer) :
    b.switchActive = { b with
      bufferLengths := Function.update b.bufferLengths b.getInactive 0
      activeBuffer := b.getInactive
      readIdx := 0 } := by
  unfold switchActive getInactive
  split <;> rfl

theorem switchActive_wf {b : DoubleBuffer} (wf : b.Wf) : b.switchActive.Wf := by
  rw [switchActive_eq]
  refine ⟨wf.halves, ?_, Nat.zero_le _⟩
  intro half
  by_cases given : half = b.getInactive
  · simp [given]
  · simpa [given] using wf.lengths half

/-- Which half is read and which is written. -/
theorem halves_cases (b : DoubleBuffer) :
    (b.activeBuffer = 0 ∧ b.getInactive = 1) ∨ (b.activeBuffer = 1 ∧ b.getInactive = 0) := by
  rcases (show b.activeBuffer = 0 ∨ b.activeBuffer = 1 by omega) with zero | one
  · exact .inl ⟨zero, by simp [getInactive, zero]⟩
  · exact .inr ⟨one, by simp [getInactive, one]⟩

theorem getInactive_ne (b : DoubleBuffer) : b.getInactive ≠ b.activeBuffer := by
  rcases b.halves_cases with ⟨active, inactive⟩ | ⟨active, inactive⟩ <;>
    simp [active, inactive]

/-- Swapping a drained half changes nothing the reader can see. -/
theorem stored_switchActive {b : DoubleBuffer} (m : Mem UInt8)
    (drained : b.bufferLengths b.getInactive - b.readIdx = 0) :
    b.switchActive.stored m = b.stored m := by
  have empty : b.pending m = [] := by simp [pending, drained]
  unfold stored
  rw [empty, List.nil_append]
  rcases b.halves_cases with ⟨active, -⟩ | ⟨active, -⟩ <;>
    simp [switchActive, pending, fresh, getInactive, active]

/-- `getReadLength` reports how much the next half to read still holds; if that
is nothing, the buffer is empty. -/
theorem getReadLength_spec {b : DoubleBuffer} (wf : b.Wf) (m : Mem UInt8) :
    b.getReadLength.2.Wf ∧ b.getReadLength.2.stored m = b.stored m ∧
      b.getReadLength.1 =
        b.getReadLength.2.bufferLengths b.getReadLength.2.getInactive -
          b.getReadLength.2.readIdx := by
  unfold getReadLength
  dsimp only
  split
  · rename_i drained
    exact ⟨switchActive_wf wf, stored_switchActive m drained, rfl⟩
  · exact ⟨wf, rfl, rfl⟩

/-- Moving the read index over `n` bytes takes them from the front. -/
theorem stored_advance {b : DoubleBuffer} (m : Mem UInt8) {n : Nat}
    (bound : n ≤ b.bufferLengths b.getInactive - b.readIdx) :
    b.stored m = m.load (b.buffers b.getInactive + b.readIdx) n ++
      { b with readIdx := b.readIdx + n }.stored m := by
  have split : b.pending m = m.load (b.buffers b.getInactive + b.readIdx) n ++
      m.load (b.buffers b.getInactive + b.readIdx + n)
        (b.bufferLengths b.getInactive - b.readIdx - n) := by
    rw [← Mem.load_add, pending]
    congr 1
    omega
  rw [stored, split, List.append_assoc, Nat.sub_sub, Nat.add_assoc]
  rfl

/-- A read takes the bytes it returns from the front. -/
theorem read_spec {b : DoubleBuffer} (wf : b.Wf) (m : Mem UInt8) (len : Nat) :
    (b.read m len).2.Wf ∧ b.stored m = (b.read m len).1 ++ (b.read m len).2.stored m := by
  obtain ⟨wf', same, available⟩ := getReadLength_spec wf m
  unfold read
  revert wf' same available
  obtain ⟨bytesAvailable, b'⟩ := b.getReadLength
  dsimp only
  intro wf' same available
  split
  · -- `n` bytes are taken; what is pending splits behind them
    generalize takes : (if len < bytesAvailable then len else bytesAvailable) = n
    have enough : n ≤ bytesAvailable := by
      rw [← takes]
      split <;> omega
    refine ⟨⟨wf'.halves, wf'.lengths, ?_⟩, ?_⟩
    · have := wf'.readIdx_le
      simp only [getInactive] at *
      omega
    · rw [← same]
      exact stored_advance m (by omega)
  · exact ⟨wf', by simpa using same.symm⟩

/-- A read returns no more than it is asked for. -/
theorem length_read_le (b : DoubleBuffer) (m : Mem UInt8) (len : Nat) :
    (b.read m len).1.length ≤ len := by
  unfold read
  obtain ⟨bytesAvailable, b'⟩ := b.getReadLength
  dsimp only
  split
  · rw [Mem.length_load]
    split <;> omega
  · exact Nat.zero_le _

/-- There is nothing to read only if nothing is stored. -/
theorem stored_of_getReadLength {b : DoubleBuffer} (m : Mem UInt8)
    (none : b.getReadLength.1 = 0) : b.stored m = [] := by
  unfold getReadLength at none
  dsimp only at none
  split at none
  · rename_i drained
    rw [← stored_switchActive m drained]
    rcases b.halves_cases with ⟨active, -⟩ | ⟨active, -⟩ <;>
      simp_all [switchActive, getInactive, stored, pending, fresh]
  · rename_i some
    exact absurd none some

/-- A read that asks for something returns something, if there is anything. -/
theorem read_ne_nil {b : DoubleBuffer} {m : Mem UInt8} {len : Nat} (asks : 0 < len)
    (some : b.stored m ≠ []) : (b.read m len).1 ≠ [] := by
  have available : b.getReadLength.1 ≠ 0 := fun none => some (stored_of_getReadLength m none)
  unfold read
  revert available
  obtain ⟨bytesAvailable, b'⟩ := b.getReadLength
  dsimp only
  intro available
  rw [if_pos (Nat.pos_of_ne_zero available)]
  apply List.ne_nil_of_length_pos
  rw [Mem.length_load]
  split <;> omega

/-- What is stored depends on the unread addresses only. -/
theorem stored_congr {b : DoubleBuffer} {m m' : Mem UInt8}
    (same : ∀ a, b.Unread a → m' a = m a) : b.stored m' = b.stored m := by
  have pendingEq : b.pending m' = b.pending m :=
    Mem.load_congr fun a low high => same a (.inl ⟨low, by omega⟩)
  have freshEq : b.fresh m' = b.fresh m :=
    Mem.load_congr fun a low high => same a (.inr ⟨low, high⟩)
  rw [stored, pendingEq, freshEq, stored]

/-- And on every one of them. -/
theorem eq_of_stored_eq {b : DoubleBuffer} {m m' : Mem UInt8} (same : b.stored m' = b.stored m)
    {a : Nat} (unread : b.Unread a) : m' a = m a := by
  obtain ⟨pendingEq, freshEq⟩ := List.append_inj same (by simp [pending])
  rcases unread with ⟨low, high⟩ | ⟨low, high⟩
  · exact Mem.eq_of_load_eq pendingEq low (by omega)
  · exact Mem.eq_of_load_eq freshEq low high

@[simp] theorem getReadLength_bufferSize (b : DoubleBuffer) :
    b.getReadLength.2.bufferSize = b.bufferSize := by
  simp only [getReadLength, switchActive]
  split_ifs <;> rfl

@[simp] theorem read_bufferSize (b : DoubleBuffer) (m : Mem UInt8) (len : Nat) :
    (b.read m len).2.bufferSize = b.bufferSize := by
  rw [← b.getReadLength_bufferSize]
  unfold read
  dsimp only
  split <;> rfl

@[simp] theorem write_bufferSize (b : DoubleBuffer) (m : Mem UInt8) (data : List UInt8) :
    (b.write m data).2.1.bufferSize = b.bufferSize := by
  unfold write
  dsimp only
  split <;> rfl

/-- A read that asks for at least a half empties the half it reads. -/
theorem read_half_drains {b : DoubleBuffer} (wf : b.Wf) (m : Mem UInt8) {len : Nat}
    (half : b.bufferSize ≤ len) :
    (b.read m len).2.bufferLengths (b.read m len).2.getInactive -
      (b.read m len).2.readIdx = 0 := by
  obtain ⟨wf', -, available⟩ := getReadLength_spec wf m
  have size := b.getReadLength_bufferSize
  unfold read
  revert wf' available size
  obtain ⟨bytesAvailable, b'⟩ := b.getReadLength
  dsimp only
  intro wf' available size
  have bound := wf'.lengths b'.getInactive
  split
  · rw [if_neg (by omega)]
    simp only [getInactive] at available ⊢
    omega
  · dsimp only
    omega

/-- The next such read returns everything else. -/
theorem read_drained {b : DoubleBuffer} (wf : b.Wf) (m : Mem UInt8) {len : Nat}
    (half : b.bufferSize ≤ len)
    (drained : b.bufferLengths b.getInactive - b.readIdx = 0) :
    (b.read m len).1 = b.stored m := by
  -- the drained half is swapped out before anything is read
  have swapped : b.getReadLength =
      (b.bufferLengths b.activeBuffer, b.switchActive) := by
    unfold getReadLength
    rw [if_pos drained]
    rcases b.halves_cases with ⟨active, -⟩ | ⟨active, -⟩ <;>
      simp [switchActive, getInactive, active]
  have bound := wf.lengths b.activeBuffer
  rw [← stored_switchActive m drained]
  simp only [read, swapped]
  rw [if_neg (c := len < _) (by omega)]
  rcases b.halves_cases with ⟨active, -⟩ | ⟨active, -⟩ <;>
    by_cases some : 0 < b.bufferLengths b.activeBuffer <;>
    simp_all [switchActive, getInactive, stored, pending, fresh]

/-- The cells an accepted write fills hold no unread byte. -/
theorem not_unread_of_write {b : DoubleBuffer} (wf : b.Wf) {a n : Nat}
    (room : n ≤ b.bufferSize - b.bufferLengths b.activeBuffer)
    (low : b.buffers b.activeBuffer + b.bufferLengths b.activeBuffer ≤ a)
    (high : a < b.buffers b.activeBuffer + b.bufferLengths b.activeBuffer + n) :
    ¬ b.Unread a := by
  obtain ⟨halves, lengths, -⟩ := wf
  have len0 := lengths 0
  have len1 := lengths 1
  unfold Unread
  rcases b.halves_cases with ⟨active, inactive⟩ | ⟨active, inactive⟩ <;>
    rw [active] at room low high ⊢ <;> rw [inactive] <;> omega

/-- A refused write changes nothing. -/
theorem write_refused {b : DoubleBuffer} {m : Mem UInt8} {data : List UInt8}
    (refused : (b.write m data).1 = false) : (b.write m data).2 = (b, m) := by
  unfold write at refused ⊢
  dsimp only at refused ⊢
  split at refused
  · rename_i full
    rw [if_pos full]
  · cases refused

/-- A write is refused, and changes nothing, or appends its data. -/
theorem write_spec {b : DoubleBuffer} (wf : b.Wf) (m : Mem UInt8) (data : List UInt8) :
    if (b.write m data).1 = true then
      (b.write m data).2.1.Wf ∧
        (b.write m data).2.1.stored (b.write m data).2.2 = b.stored m ++ data
    else (b.write m data).2 = (b, m) := by
  unfold write
  dsimp only
  split
  case isTrue => simp
  rename_i room
  rw [if_pos rfl]
  have inactive := b.getInactive_ne
  refine ⟨⟨wf.halves, fun half => ?_, ?_⟩, ?_⟩
  · have bound := wf.lengths half
    by_cases active : half = b.activeBuffer
    · subst active
      simp
      omega
    · simpa [active] using bound
  · have bound := wf.readIdx_le
    show b.readIdx ≤ Function.update b.bufferLengths b.activeBuffer _ b.getInactive
    rwa [Function.update_of_ne inactive]
  · -- the new bytes go where nothing is stored, right behind the fresh ones
    have kept : b.stored (m.store (b.buffers b.activeBuffer +
        b.bufferLengths b.activeBuffer) data) = b.stored m :=
      stored_congr fun a unread => Mem.store_outside (by
        by_contra inside
        exact not_unread_of_write (n := data.length) wf (by omega) (by omega) (by omega) unread)
    rw [← kept]
    simp only [stored, pending, fresh, List.append_assoc, Function.update_self, Mem.load_add,
      Mem.load_store_self]
    simp only [getInactive] at inactive ⊢
    simp [Function.update_of_ne inactive]

end DoubleBuffer

end OlympusFirmware.Usb

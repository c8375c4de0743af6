import OlympusFirmware.Lib.Fsm
import OlympusFirmware.Usb.DoubleBuffer

/-!
# The double buffer under interrupts (`utils/doubleBuffer.c`)

`doubleBuffer_write` runs in the USB interrupt and `doubleBuffer_read` in the main
loop, so a write can come between any two assignments of a read. Here the reader is
cut into its assignments, `memcpy` into its bytes, and a write may happen before each
of them. The reader's position is a `ReaderPc` with the values of its locals.

In the middle of a swap `readIdx` is out of date: the drained half is given back
before the index is cleared. `ReaderPc.view` is the buffer as the reader is going to
see it, and with it `stored` is never disturbed: what has been read, what is in the
reader's hands and what is stored are what was written, in order.
-/

namespace OlympusFirmware.Usb

open OlympusFirmware.Lib

/-- The next assignment of the reader. -/
inductive ReaderPc
  | idle
  -- `doubleBuffer_getReadLength`
  | loadInactive (len : Nat)
  | loadLength (len : Nat) (inactive : Fin 2)
  -- `doubleBuffer_switchActive`
  | testActive (len : Nat)
  | clearLength (len : Nat) (half : Fin 2)
  | setActive (len : Nat) (half : Fin 2)
  | clearReadIdx (len : Nat)
  -- `doubleBuffer_getReadLength` again
  | reloadInactive (len : Nat)
  | reloadLength (len : Nat) (inactive : Fin 2)
  -- `doubleBuffer_read`
  | takeInactive (len bytesAvailable : Nat)
  | takeCount (len bytesAvailable : Nat) (inactive : Fin 2)
  | copy (numBytesToRead source : Nat) (data : List UInt8)
  | advance (numBytesToRead : Nat) (data : List UInt8)
  | giveBack (data : List UInt8)
deriving DecidableEq

/-- The buffer, the memory its halves are in, and the reader. -/
structure Interrupted where
  buffer : DoubleBuffer
  mem : Mem UInt8
  pc : ReaderPc

/-- What can happen: the main loop calls `doubleBuffer_read`, the reader makes its next
assignment, or the interrupt calls `doubleBuffer_write`. -/
inductive InterruptEvent
  | call (len : Nat)
  | step
  | write (data : List UInt8)
deriving DecidableEq

/-- What the two functions return. -/
inductive InterruptOutput
  | accepted (data : List UInt8)
  | refused
  | returned (data : List UInt8)
deriving DecidableEq

/-- `doubleBuffer_read`, one assignment. -/
def readerStep (s : Interrupted) : Interrupted × List InterruptOutput :=
  let b := s.buffer
  match s.pc with
  | .idle => (s, [])
  | .loadInactive len => ({ s with pc := .loadLength len b.getInactive }, [])
  | .loadLength len inactive =>
      let available := b.bufferLengths inactive - b.readIdx
      if available = 0 then ({ s with pc := .testActive len }, [])
      else ({ s with pc := .takeInactive len available }, [])
  | .testActive len =>
      -- half 1 if `activeBuffer == 0`, else half 0
      ({ s with pc := .clearLength len b.getInactive }, [])
  | .clearLength len half =>
      ({ s with
        buffer := { b with bufferLengths := Function.update b.bufferLengths half 0 }
        pc := .setActive len half }, [])
  | .setActive len half =>
      ({ s with buffer := { b with activeBuffer := half }, pc := .clearReadIdx len }, [])
  | .clearReadIdx len =>
      ({ s with buffer := { b with readIdx := 0 }, pc := .reloadInactive len }, [])
  | .reloadInactive len => ({ s with pc := .reloadLength len b.getInactive }, [])
  | .reloadLength len inactive =>
      ({ s with pc := .takeInactive len (b.bufferLengths inactive - b.readIdx) }, [])
  | .takeInactive len bytesAvailable =>
      ({ s with pc := .takeCount len bytesAvailable b.getInactive }, [])
  | .takeCount len bytesAvailable inactive =>
      if 0 < bytesAvailable then
        let numBytesToRead := if len < bytesAvailable then len else bytesAvailable
        ({ s with pc := .copy numBytesToRead (b.buffers inactive + b.readIdx) [] }, [])
      else ({ s with pc := .giveBack [] }, [])
  | .copy numBytesToRead source data =>
      if data.length < numBytesToRead then
        ({ s with pc := .copy numBytesToRead source (data ++ [s.mem (source + data.length)]) }, [])
      else ({ s with pc := .advance numBytesToRead data }, [])
  | .advance numBytesToRead data =>
      ({ s with
        buffer := { b with readIdx := b.readIdx + numBytesToRead }
        pc := .giveBack data }, [])
  | .giveBack data => ({ s with pc := .idle }, [.returned data])

/-- One event. The main loop makes no second call while it is inside one. -/
def interruptedStep (s : Interrupted) : InterruptEvent → Interrupted × List InterruptOutput
  | .call len => (if s.pc = .idle then { s with pc := .loadInactive len } else s, [])
  | .step => readerStep s
  | .write data =>
      let result := s.buffer.write s.mem data
      ({ s with buffer := result.2.1, mem := result.2.2 },
        [if result.1 then .accepted data else .refused])

/-- The reader and the interrupt as a machine. -/
def interruptedFSM : Fsm Interrupted InterruptEvent InterruptOutput where
  step := interruptedStep

/-- After `doubleBuffer_init`. -/
def Interrupted.init (base bufLen : Nat) (mem : Mem UInt8) : Interrupted :=
  ⟨.init base bufLen, mem, .idle⟩

/-- What the buffer holds, oldest byte first. -/
def Interrupted.stored (s : Interrupted) : List UInt8 := s.buffer.stored s.mem

/-- The data of the writes that returned true. -/
def acceptedData : List InterruptOutput → List UInt8
  | [] => []
  | .accepted data :: rest => data ++ acceptedData rest
  | .refused :: rest => acceptedData rest
  | .returned _ :: rest => acceptedData rest

/-- What the reads returned, one list a call. -/
def returnedData : List InterruptOutput → List (List UInt8)
  | [] => []
  | .returned data :: rest => data :: returnedData rest
  | .accepted _ :: rest => returnedData rest
  | .refused :: rest => returnedData rest

theorem acceptedData_append (xs ys : List InterruptOutput) :
    acceptedData (xs ++ ys) = acceptedData xs ++ acceptedData ys := by
  induction xs with
  | nil => rfl
  | cons x xs ih => cases x <;> simp [acceptedData, ih]

theorem returnedData_append (xs ys : List InterruptOutput) :
    returnedData (xs ++ ys) = returnedData xs ++ returnedData ys := by
  induction xs with
  | nil => rfl
  | cons x xs ih => cases x <;> simp [returnedData, ih]

/-! ## What a write leaves alone -/

/-- What the reader relies on while a write happens: the write only lengthens the
active half. -/
structure WriterKeeps (b : DoubleBuffer) (m : Mem UInt8) (b' : DoubleBuffer) (m' : Mem UInt8) :
    Prop where
  active : b'.activeBuffer = b.activeBuffer
  buffers : b'.buffers = b.buffers
  size : b'.bufferSize = b.bufferSize
  readIdx : b'.readIdx = b.readIdx
  length : b'.bufferLengths b.getInactive = b.bufferLengths b.getInactive
  grows : b.bufferLengths b.activeBuffer ≤ b'.bufferLengths b.activeBuffer
  cells : ∀ a, b.buffers b.getInactive ≤ a →
    a < b.buffers b.getInactive + b.bufferLengths b.getInactive → m' a = m a

namespace WriterKeeps

variable {b b' : DoubleBuffer} {m m' : Mem UInt8}

theorem inactive (keeps : WriterKeeps b m b' m') : b'.getInactive = b.getInactive := by
  unfold DoubleBuffer.getInactive
  rw [keeps.active]

theorem inactive_length (keeps : WriterKeeps b m b' m') :
    b'.bufferLengths b'.getInactive = b.bufferLengths b.getInactive := by
  rw [keeps.inactive, keeps.length]

theorem active_length (keeps : WriterKeeps b m b' m') :
    b.bufferLengths b.activeBuffer ≤ b'.bufferLengths b'.activeBuffer := by
  rw [keeps.active]
  exact keeps.grows

end WriterKeeps

theorem writerKeeps_write {b : DoubleBuffer} (m : Mem UInt8) (data : List UInt8)
    (halves : b.buffers 1 = b.buffers 0 + b.bufferSize)
    (lengths : ∀ half, b.bufferLengths half ≤ b.bufferSize) :
    WriterKeeps b m (b.write m data).2.1 (b.write m data).2.2 := by
  unfold DoubleBuffer.write
  dsimp only
  split
  · exact ⟨rfl, rfl, rfl, rfl, rfl, Nat.le_refl _, fun _ _ _ => rfl⟩
  · rename_i room
    have other := b.getInactive_ne
    refine ⟨rfl, rfl, rfl, rfl, Function.update_of_ne other _ _, by simp, fun a low high => ?_⟩
    -- the two halves do not overlap
    have len0 := lengths 0
    have len1 := lengths 1
    refine Mem.store_outside ?_
    rcases b.halves_cases with ⟨active, inactive⟩ | ⟨active, inactive⟩ <;>
      rw [active] at room ⊢ <;> rw [inactive] at low high <;> omega

/-! ## The invariant -/

namespace ReaderPc

/-- The read index the reader is going to use: between giving a half back and clearing
the index it is zero, whatever `readIdx` holds. -/
def readIdx (pc : ReaderPc) (b : DoubleBuffer) : Nat :=
  match pc with
  | .setActive .. => 0
  | .clearReadIdx .. => 0
  | _ => b.readIdx

/-- The buffer as the reader is going to see it. -/
def view (pc : ReaderPc) (b : DoubleBuffer) : DoubleBuffer := { b with readIdx := pc.readIdx b }

/-- Bytes that have left the buffer and have not been returned. -/
def inHand : ReaderPc → List UInt8
  | .giveBack data => data
  | _ => []

/-- What the reader's locals are worth. -/
def Locals (b : DoubleBuffer) (m : Mem UInt8) : ReaderPc → Prop
  | .loadLength _ inactive => inactive = b.getInactive
  | .testActive _ => b.bufferLengths b.getInactive - b.readIdx = 0
  | .clearLength _ half =>
      half = b.getInactive ∧ b.bufferLengths b.getInactive - b.readIdx = 0
  | .setActive _ half => half = b.getInactive ∧ b.bufferLengths b.getInactive = 0
  | .reloadLength _ inactive => inactive = b.getInactive
  | .takeInactive _ available => available = b.bufferLengths b.getInactive - b.readIdx
  | .takeCount _ available inactive =>
      available = b.bufferLengths b.getInactive - b.readIdx ∧ inactive = b.getInactive
  | .copy n source data =>
      n ≤ b.bufferLengths b.getInactive - b.readIdx ∧
        source = b.buffers b.getInactive + b.readIdx ∧
        data.length ≤ n ∧ data = m.load source data.length
  | .advance n data =>
      n ≤ b.bufferLengths b.getInactive - b.readIdx ∧
        data = m.load (b.buffers b.getInactive + b.readIdx) n
  | _ => True

/-- A write changes none of it. -/
theorem Locals.kept {b b' : DoubleBuffer} {m m' : Mem UInt8} {pc : ReaderPc}
    (keeps : WriterKeeps b m b' m') (locals : pc.Locals b m) : pc.Locals b' m' := by
  cases pc with
  | idle | loadInactive | clearReadIdx | reloadInactive | giveBack => trivial
  | loadLength len inactive | reloadLength len inactive => exact locals.trans keeps.inactive.symm
  | testActive len | takeInactive len available =>
      simpa only [Locals, keeps.inactive_length, keeps.readIdx] using locals
  | clearLength len half | setActive len half | takeCount len available half =>
      simpa only [Locals, keeps.length, keeps.readIdx, keeps.inactive] using locals
  | copy n source data =>
      obtain ⟨bound, start, short, bytes⟩ := locals
      simp only [Locals, keeps.length, keeps.readIdx, keeps.inactive, keeps.buffers]
      refine ⟨bound, start, short, bytes.trans (Mem.load_congr fun a low high => ?_).symm⟩
      exact keeps.cells a (by omega) (by omega)
  | advance n data =>
      obtain ⟨bound, bytes⟩ := locals
      simp only [Locals, keeps.length, keeps.readIdx, keeps.inactive, keeps.buffers]
      refine ⟨bound, bytes.trans (Mem.load_congr fun a low high => ?_).symm⟩
      exact keeps.cells a (by omega) (by omega)

end ReaderPc

/-- The buffer's shape, for a given history: the view is well formed, and read, in hand
and stored bytes are what was accepted. -/
structure FifoInv (hist : List InterruptOutput) (s : Interrupted) : Prop where
  wf : (s.pc.view s.buffer).Wf
  locals : s.pc.Locals s.buffer s.mem
  queue : (returnedData hist).flatten ++ s.pc.inHand ++ (s.pc.view s.buffer).stored s.mem =
    acceptedData hist

theorem fifoInv_init (base bufLen : Nat) (mem : Mem UInt8) :
    FifoInv [] (.init base bufLen mem) := by
  refine ⟨DoubleBuffer.init_wf base bufLen, trivial, ?_⟩
  exact DoubleBuffer.stored_init base bufLen mem

/-! ## One assignment of the reader -/

/-- Giving back a drained half. -/
theorem stored_clearLength {b : DoubleBuffer} (m : Mem UInt8)
    (drained : b.bufferLengths b.getInactive - b.readIdx = 0) :
    { b with bufferLengths := Function.update b.bufferLengths b.getInactive 0,
             readIdx := 0 }.stored m = b.stored m := by
  have other := b.getInactive_ne
  have empty : b.pending m = [] := by simp [DoubleBuffer.pending, drained]
  rw [DoubleBuffer.stored, DoubleBuffer.stored, empty]
  simp only [DoubleBuffer.pending, DoubleBuffer.fresh, DoubleBuffer.getInactive] at other ⊢
  simp [Function.update_of_ne other.symm]

/-- Swapping when the inactive half is empty. -/
theorem stored_setActive {b : DoubleBuffer} (m : Mem UInt8)
    (empty : b.bufferLengths b.getInactive = 0) :
    { b with activeBuffer := b.getInactive, readIdx := 0 }.stored m =
      { b with readIdx := 0 }.stored m := by
  rcases b.halves_cases with ⟨active, inactive⟩ | ⟨active, inactive⟩ <;>
    rw [inactive] at empty <;>
    simp [DoubleBuffer.stored, DoubleBuffer.pending, DoubleBuffer.fresh,
      DoubleBuffer.getInactive, active, empty]

/-- What one assignment of the reader does: nothing is lost between the buffer, the
reader's hands and the caller. -/
structure ReaderKeeps (s : Interrupted) (result : Interrupted × List InterruptOutput) : Prop where
  wf : (result.1.pc.view result.1.buffer).Wf
  locals : result.1.pc.Locals result.1.buffer result.1.mem
  queue : (returnedData result.2).flatten ++ result.1.pc.inHand ++
    (result.1.pc.view result.1.buffer).stored result.1.mem =
      s.pc.inHand ++ (s.pc.view s.buffer).stored s.mem
  silent : acceptedData result.2 = []

theorem readerKeeps_clearLength {b : DoubleBuffer} {m : Mem UInt8} {len : Nat} (wf : b.Wf)
    (drained : b.bufferLengths b.getInactive - b.readIdx = 0) :
    ReaderKeeps ⟨b, m, .clearLength len b.getInactive⟩
      (readerStep ⟨b, m, .clearLength len b.getInactive⟩) := by
  refine ⟨⟨wf.halves, fun half => ?_, Nat.zero_le _⟩, ⟨rfl, ?_⟩, ?_, rfl⟩
  · have bound := wf.lengths half
    by_cases inactive : half = b.getInactive
    · subst inactive
      simp [readerStep, ReaderPc.view]
    · simpa [readerStep, ReaderPc.view, inactive] using bound
  · exact Function.update_self _ _ _
  · exact stored_clearLength m drained

theorem readerKeeps_setActive {b : DoubleBuffer} {m : Mem UInt8} {len : Nat}
    (wf : ({ b with readIdx := 0 } : DoubleBuffer).Wf)
    (empty : b.bufferLengths b.getInactive = 0) :
    ReaderKeeps ⟨b, m, .setActive len b.getInactive⟩
      (readerStep ⟨b, m, .setActive len b.getInactive⟩) :=
  ⟨⟨wf.halves, wf.lengths, Nat.zero_le _⟩, trivial, stored_setActive m empty, rfl⟩

theorem readerKeeps_copy {b : DoubleBuffer} {m : Mem UInt8} {n source : Nat} {data : List UInt8}
    (wf : b.Wf) (locals : (ReaderPc.copy n source data).Locals b m) :
    ReaderKeeps ⟨b, m, .copy n source data⟩ (readerStep ⟨b, m, .copy n source data⟩) := by
  obtain ⟨bound, start, short, bytes⟩ := locals
  simp only [readerStep]
  split
  · rename_i more
    refine ⟨wf, ⟨bound, start, by simpa using Nat.succ_le_of_lt more, ?_⟩, rfl, rfl⟩
    rw [List.length_append, List.length_singleton, Mem.load_add, ← bytes]
    rfl
  · have whole : data.length = n := by omega
    exact ⟨wf, ⟨bound, by rw [← start, ← whole]; exact bytes⟩, rfl, rfl⟩

theorem readerKeeps_advance {b : DoubleBuffer} {m : Mem UInt8} {n : Nat} {data : List UInt8}
    (wf : b.Wf) (locals : (ReaderPc.advance n data).Locals b m) :
    ReaderKeeps ⟨b, m, .advance n data⟩ (readerStep ⟨b, m, .advance n data⟩) := by
  obtain ⟨bound, bytes⟩ := locals
  have inside := wf.readIdx_le
  refine ⟨⟨wf.halves, wf.lengths, ?_⟩, trivial, ?_, rfl⟩
  · show b.readIdx + n ≤ b.bufferLengths b.getInactive
    omega
  · rw [bytes]
    exact (DoubleBuffer.stored_advance m bound).symm

/-- **One assignment.** -/
theorem readerKeeps_step {b : DoubleBuffer} {m : Mem UInt8} {pc : ReaderPc}
    (wf : (pc.view b).Wf) (locals : pc.Locals b m) :
    ReaderKeeps ⟨b, m, pc⟩ (readerStep ⟨b, m, pc⟩) := by
  cases pc with
  | idle | loadInactive len | clearReadIdx len | reloadInactive len =>
      exact ⟨wf, by trivial, rfl, rfl⟩
  | loadLength len inactive =>
      obtain rfl : inactive = b.getInactive := locals
      simp only [readerStep]
      split
      · rename_i drained
        exact ⟨wf, drained, rfl, rfl⟩
      · exact ⟨wf, rfl, rfl, rfl⟩
  | testActive len =>
      have drained : b.bufferLengths b.getInactive - b.readIdx = 0 := locals
      exact ⟨wf, ⟨rfl, drained⟩, rfl, rfl⟩
  | clearLength len half =>
      obtain ⟨rfl, drained⟩ := locals
      exact readerKeeps_clearLength wf drained
  | setActive len half =>
      obtain ⟨rfl, empty⟩ := locals
      exact readerKeeps_setActive wf empty
  | reloadLength len inactive =>
      obtain rfl : inactive = b.getInactive := locals
      exact ⟨wf, rfl, rfl, rfl⟩
  | takeInactive len available => exact ⟨wf, ⟨locals, rfl⟩, rfl, rfl⟩
  | takeCount len available inactive =>
      obtain ⟨rfl, rfl⟩ := locals
      simp only [readerStep]
      split
      · refine ⟨wf, ⟨?_, rfl, Nat.zero_le _, rfl⟩, rfl, rfl⟩
        dsimp only
        split <;> omega
      · exact ⟨wf, trivial, rfl, rfl⟩
  | copy n source data => exact readerKeeps_copy wf locals
  | advance n data => exact readerKeeps_advance wf locals
  | giveBack data =>
      refine ⟨wf, trivial, ?_, rfl⟩
      simp only [readerStep, returnedData, List.flatten_cons, List.flatten_nil, ReaderPc.inHand,
        List.append_nil]
      rfl

/-! ## One event, and a run -/

/-- The view is only about the index, which a write does not look at. -/
theorem write_withReadIdx (b : DoubleBuffer) (m : Mem UInt8) (data : List UInt8) (i : Nat) :
    ({ b with readIdx := i } : DoubleBuffer).write m data =
      ((b.write m data).1, { (b.write m data).2.1 with readIdx := i }, (b.write m data).2.2) := by
  unfold DoubleBuffer.write
  dsimp only
  split <;> rfl

/-- A write as the reader sees it. -/
theorem view_write {b : DoubleBuffer} {m : Mem UInt8} {data : List UInt8} (pc : ReaderPc)
    (keeps : WriterKeeps b m (b.write m data).2.1 (b.write m data).2.2) :
    (pc.view b).write m data =
      ((b.write m data).1, pc.view (b.write m data).2.1, (b.write m data).2.2) := by
  have same : pc.readIdx (b.write m data).2.1 = pc.readIdx b := by
    unfold ReaderPc.readIdx
    rw [keeps.readIdx]
  rw [ReaderPc.view, write_withReadIdx, ReaderPc.view, same]

theorem writerKeeps_of_view {s : Interrupted} (wf : (s.pc.view s.buffer).Wf)
    (data : List UInt8) :
    WriterKeeps s.buffer s.mem (s.buffer.write s.mem data).2.1 (s.buffer.write s.mem data).2.2 :=
  writerKeeps_write s.mem data wf.halves wf.lengths

/-- **One event** keeps the invariant. -/
theorem fifoInv_next (hist : List InterruptOutput) (s : Interrupted) (event : InterruptEvent)
    (inv : FifoInv hist s) :
    FifoInv (hist ++ interruptedFSM.emit s event) (interruptedFSM.next s event) := by
  show FifoInv (hist ++ (interruptedStep s event).2) (interruptedStep s event).1
  cases event with
  | call len =>
      simp only [interruptedStep, List.append_nil]
      split
      · rename_i idle
        have wf := inv.wf
        have queue := inv.queue
        rw [idle] at wf queue
        exact ⟨wf, trivial, queue⟩
      · exact inv
  | step =>
      have keeps := readerKeeps_step inv.wf inv.locals
      refine ⟨keeps.wf, keeps.locals, ?_⟩
      have queue := inv.queue
      rw [List.append_assoc, ← keeps.queue] at queue
      simpa [interruptedStep, returnedData_append, acceptedData_append, keeps.silent] using queue
  | write data =>
      have keeps := writerKeeps_of_view inv.wf data
      have spec := DoubleBuffer.write_spec inv.wf s.mem data
      rw [view_write s.pc keeps] at spec
      have locals := inv.locals.kept keeps
      cases ok : (s.buffer.write s.mem data).1 with
      | true =>
          simp only [ok, if_true] at spec
          refine ⟨spec.1, locals, ?_⟩
          simp only [interruptedStep, ok, if_true, returnedData_append, acceptedData_append,
            returnedData, acceptedData, List.append_nil, spec.2, ← inv.queue, List.append_assoc]
      | false =>
          simp only [interruptedStep, DoubleBuffer.write_refused ok, ok]
          refine ⟨inv.wf, inv.locals, ?_⟩
          simpa [returnedData_append, acceptedData_append, returnedData, acceptedData]
            using inv.queue

theorem fifoInv_after (base bufLen : Nat) (mem : Mem UInt8) (events : List InterruptEvent) :
    FifoInv (interruptedFSM.outputs (.init base bufLen mem) events)
      (interruptedFSM.after (.init base bufLen mem) events) :=
  interruptedFSM.invariant_emitted fifoInv_next (fifoInv_init base bufLen mem) events

end OlympusFirmware.Usb

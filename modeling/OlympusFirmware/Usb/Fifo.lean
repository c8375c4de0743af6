import OlympusFirmware.Usb.Interrupted

/-!
# The interrupted double buffer is a queue

What the invariant of `Usb.Interrupted` gives over whole runs. Without interrupts the
reader's assignments are `doubleBuffer_read`. With them, no byte is lost, doubled or
reordered, no copy leaves its half, and a read that starts when bytes are stored comes
back with at least one: `ReaderPc.Owing` follows that promise from assignment to
assignment, and `ReaderPc.left` bounds how many there are.
-/

namespace OlympusFirmware.Usb

open OlympusFirmware.Lib

/-! ## Without interrupts -/

/-- The reader alone gets from one state to another, with these outputs. -/
def Runs (s s' : Interrupted) (out : List InterruptOutput) : Prop :=
  ∃ k, interruptedFSM.after s (List.replicate k .step) = s' ∧
    interruptedFSM.outputs s (List.replicate k .step) = out

theorem Runs.one (s : Interrupted) : Runs s (readerStep s).1 (readerStep s).2 :=
  ⟨1, rfl, List.append_nil _⟩

theorem Runs.trans {s s' s'' : Interrupted} {out out' : List InterruptOutput}
    (first : Runs s s' out) (second : Runs s' s'' out') : Runs s s'' (out ++ out') := by
  obtain ⟨k, rfl, rfl⟩ := first
  obtain ⟨l, rfl, rfl⟩ := second
  refine ⟨k + l, ?_, ?_⟩
  · rw [List.replicate_add, Fsm.after_append]
  · rw [List.replicate_add, Fsm.outputs_append]

/-- An assignment that returns nothing, and what follows. -/
theorem Runs.next {s s' : Interrupted} {out : List InterruptOutput}
    (silent : (readerStep s).2 = []) (rest : Runs (readerStep s).1 s' out) : Runs s s' out := by
  have whole := (Runs.one s).trans rest
  rwa [silent, List.nil_append] at whole

variable {b : DoubleBuffer} {m : Mem UInt8}

/-- `memcpy`, by induction on what is left to copy. -/
theorem runs_copy (source : Nat) (left : Nat) : ∀ data : List UInt8,
    Runs ⟨b, m, .copy (data.length + left) source data⟩
      ⟨b, m, .advance (data.length + left) (data ++ m.load (source + data.length) left)⟩ [] := by
  induction left with
  | zero =>
      intro data
      have step : readerStep ⟨b, m, .copy data.length source data⟩ =
          (⟨b, m, .advance data.length data⟩, []) := if_neg (Nat.lt_irrefl _)
      simpa [step] using Runs.one ⟨b, m, .copy data.length source data⟩
  | succ left ih =>
      intro data
      have step : readerStep ⟨b, m, .copy (data.length + (left + 1)) source data⟩ =
          (⟨b, m, .copy (data.length + (left + 1)) source
            (data ++ [m (source + data.length)])⟩, []) := if_pos (by omega)
      have rest := ih (data ++ [m (source + data.length)])
      refine .next (by rw [step]) ?_
      rw [step, Nat.add_comm left 1, Mem.load_add]
      simpa [Nat.add_assoc, Nat.add_comm, Nat.add_left_comm, Mem.load] using rest

/-- `doubleBuffer_read` after `doubleBuffer_getReadLength`. -/
theorem runs_take (len available : Nat) :
    Runs ⟨b, m, .takeInactive len available⟩
      ⟨{ b with readIdx := b.readIdx + min len available }, m, .idle⟩
      [.returned (m.load (b.buffers b.getInactive + b.readIdx) (min len available))] := by
  refine .next rfl ?_
  by_cases some : 0 < available
  · have count : (if len < available then len else available) = min len available := by
      rw [Nat.min_def]
      split <;> split <;> omega
    have step : readerStep ⟨b, m, .takeCount len available b.getInactive⟩ =
        (⟨b, m, .copy (min len available) (b.buffers b.getInactive + b.readIdx) []⟩, []) := by
      simp only [readerStep, some, if_true, count]
    have copied := runs_copy (b := b) (m := m) (b.buffers b.getInactive + b.readIdx)
      (min len available) []
    refine .next (congrArg Prod.snd step) ?_
    show Runs (readerStep ⟨b, m, .takeCount len available b.getInactive⟩).1 _ _
    rw [step]
    simp only [List.length_nil, Nat.zero_add, List.nil_append, Nat.add_zero] at copied
    exact copied.trans (.next rfl (Runs.one _))
  · obtain rfl : available = 0 := by omega
    rw [Nat.min_zero]
    exact .next rfl (Runs.one ⟨b, m, .giveBack []⟩)

/-- The reader's swap is `doubleBuffer_switchActive`. -/
theorem runs_switchActive (len : Nat) :
    Runs ⟨b, m, .testActive len⟩ ⟨b.switchActive, m, .reloadInactive len⟩ [] := by
  rw [DoubleBuffer.switchActive_eq]
  exact .next rfl (.next rfl (.next rfl (Runs.one _)))

/-- `doubleBuffer_read` in terms of the number of bytes it takes. -/
theorem read_eq_min (b : DoubleBuffer) (m : Mem UInt8) (len : Nat) :
    b.read m len =
      (m.load (b.getReadLength.2.buffers b.getReadLength.2.getInactive + b.getReadLength.2.readIdx)
        (min len b.getReadLength.1),
      { b.getReadLength.2 with
        readIdx := b.getReadLength.2.readIdx + min len b.getReadLength.1 }) := by
  unfold DoubleBuffer.read
  obtain ⟨available, b'⟩ := b.getReadLength
  dsimp only
  by_cases some : 0 < available
  · have count : (if len < available then len else available) = min len available := by
      rw [Nat.min_def]
      split <;> split <;> omega
    rw [if_pos some, count]
  · obtain rfl : available = 0 := by omega
    rw [Nat.min_zero, if_neg some]
    rfl

/-- **Without interrupts** the assignments are `doubleBuffer_read`. -/
theorem runs_read (b : DoubleBuffer) (m : Mem UInt8) (len : Nat) :
    Runs ⟨b, m, .loadInactive len⟩ ⟨(b.read m len).2, m, .idle⟩ [.returned (b.read m len).1] := by
  rw [read_eq_min]
  refine .next rfl ?_
  show Runs ⟨b, m, .loadLength len b.getInactive⟩ _ _
  by_cases drained : b.bufferLengths b.getInactive - b.readIdx = 0
  · have step : readerStep ⟨b, m, .loadLength len b.getInactive⟩ =
        (⟨b, m, .testActive len⟩, []) := if_pos drained
    have swapped : b.getReadLength =
        (b.switchActive.bufferLengths b.switchActive.getInactive - b.switchActive.readIdx,
          b.switchActive) := if_pos drained
    refine .next (congrArg Prod.snd step) ?_
    rw [step, swapped]
    exact (runs_switchActive len).trans (.next rfl (.next rfl (runs_take len _)))
  · have step : readerStep ⟨b, m, .loadLength len b.getInactive⟩ =
        (⟨b, m, .takeInactive len (b.bufferLengths b.getInactive - b.readIdx)⟩, []) :=
      if_neg drained
    have kept : b.getReadLength = (b.bufferLengths b.getInactive - b.readIdx, b) :=
      if_neg drained
    refine .next (congrArg Prod.snd step) ?_
    rw [step, kept]
    exact runs_take len _

/-! ## Copies stay inside their half -/

/-- An address inside a half. -/
def DoubleBuffer.Inside (b : DoubleBuffer) (half : Fin 2) (a : Nat) : Prop :=
  b.buffers half ≤ a ∧ a < b.buffers half + b.bufferSize

/-- Every cell that `memcpy` touches in this step is inside the half it is meant for: the
active half for a write, the inactive one for the reader. -/
def CopiesInside (s : Interrupted) : InterruptEvent → Prop
  | .call _ => True
  | .step => ∀ n source data, s.pc = .copy n source data → data.length < n →
      s.buffer.Inside s.buffer.getInactive (source + data.length)
  | .write data => (s.buffer.write s.mem data).1 = true → ∀ i < data.length,
      s.buffer.Inside s.buffer.activeBuffer
        (s.buffer.buffers s.buffer.activeBuffer +
          s.buffer.bufferLengths s.buffer.activeBuffer + i)

theorem copiesInside_of_inv {hist : List InterruptOutput} {s : Interrupted}
    (inv : FifoInv hist s) (event : InterruptEvent) : CopiesInside s event := by
  cases event with
  | call len => trivial
  | step =>
      intro n source data copying more
      have locals := inv.locals
      rw [copying] at locals
      obtain ⟨bound, start, -, -⟩ := locals
      have size : s.buffer.bufferLengths s.buffer.getInactive ≤ s.buffer.bufferSize :=
        inv.wf.lengths s.buffer.getInactive
      exact ⟨by omega, by omega⟩
  | write data =>
      intro ok i inside
      have room : data.length ≤
          s.buffer.bufferSize - s.buffer.bufferLengths s.buffer.activeBuffer := by
        unfold DoubleBuffer.write at ok
        dsimp only at ok
        split at ok
        · cases ok
        · omega
      exact ⟨by omega, by omega⟩

/-- The halves are where `doubleBuffer_init` put them. -/
def SameHalves (base bufLen : Nat) (s : Interrupted) : Prop :=
  s.buffer.buffers = (DoubleBuffer.init base bufLen).buffers ∧ s.buffer.bufferSize = bufLen / 2

theorem sameHalves_next {base bufLen : Nat} (s : Interrupted) (event : InterruptEvent)
    (same : SameHalves base bufLen s) : SameHalves base bufLen (interruptedFSM.next s event) := by
  show SameHalves base bufLen (interruptedStep s event).1
  cases event with
  | call len =>
      simp only [interruptedStep]
      split <;> exact same
  | step =>
      simp only [interruptedStep, readerStep]
      split <;> (try split) <;> exact same
  | write data =>
      simp only [interruptedStep, DoubleBuffer.write]
      split <;> exact same

/-! ## A read of a buffer that holds bytes returns some -/

namespace ReaderPc

/-- The read in progress is going to return at least one byte. -/
def Owing (b : DoubleBuffer) : ReaderPc → Prop
  | .idle => False
  | .loadInactive len | .loadLength len _ => 0 < len ∧
      (0 < b.bufferLengths b.getInactive - b.readIdx ∨ 0 < b.bufferLengths b.activeBuffer)
  | .testActive len | .clearLength len _ | .setActive len _ =>
      0 < len ∧ 0 < b.bufferLengths b.activeBuffer
  | .clearReadIdx len => 0 < len ∧ 0 < b.bufferLengths b.getInactive
  | .reloadInactive len | .reloadLength len _ =>
      0 < len ∧ 0 < b.bufferLengths b.getInactive - b.readIdx
  | .takeInactive len available | .takeCount len available _ => 0 < len ∧ 0 < available
  | .copy n _ _ => 0 < n
  | .advance n _ => 0 < n
  | .giveBack data => data ≠ []

/-- How many assignments the reader makes at most before it returns. -/
def left : ReaderPc → Nat
  | .idle => 0
  | .loadInactive len => len + 13
  | .loadLength len _ => len + 12
  | .testActive len => len + 11
  | .clearLength len _ => len + 10
  | .setActive len _ => len + 9
  | .clearReadIdx len => len + 8
  | .reloadInactive len => len + 7
  | .reloadLength len _ => len + 6
  | .takeInactive len _ => len + 5
  | .takeCount len _ _ => len + 4
  | .copy n _ data => n - data.length + 3
  | .advance _ _ => 2
  | .giveBack _ => 1

/-- A write can only add to what is there to be read. -/
theorem Owing.kept {b b' : DoubleBuffer} {m m' : Mem UInt8} {pc : ReaderPc}
    (keeps : WriterKeeps b m b' m') (owing : pc.Owing b) : pc.Owing b' := by
  have grows := keeps.active_length
  cases pc with
  | idle | takeInactive | takeCount | copy | advance | giveBack => exact owing
  | loadInactive len | loadLength len =>
      obtain ⟨positive, stored⟩ := owing
      refine ⟨positive, ?_⟩
      rw [keeps.inactive_length, keeps.readIdx]
      omega
  | testActive len | clearLength len | setActive len =>
      obtain ⟨positive, stored⟩ := owing
      exact ⟨positive, by omega⟩
  | clearReadIdx len | reloadInactive len | reloadLength len =>
      simpa only [Owing, keeps.inactive_length, keeps.readIdx] using owing

end ReaderPc

/-- The active half becomes the inactive one. -/
theorem getInactive_setActive (b : DoubleBuffer) :
    ({ b with activeBuffer := b.getInactive } : DoubleBuffer).getInactive = b.activeBuffer := by
  rcases b.halves_cases with ⟨active, inactive⟩ | ⟨active, inactive⟩ <;>
    rw [inactive, active] <;> rfl

/-- What an assignment of a reader that owes a byte comes to: it returns some, or it still
owes one and is closer to the end. -/
structure Closer (pc : ReaderPc) (result : Interrupted × List InterruptOutput) : Prop where
  silent : result.2 = []
  owing : result.1.pc.Owing result.1.buffer
  left : result.1.pc.left < pc.left

theorem owing_step {b : DoubleBuffer} {m : Mem UInt8} {pc : ReaderPc} (locals : pc.Locals b m)
    (owing : pc.Owing b) :
    (∃ data, (readerStep ⟨b, m, pc⟩).2 = [.returned data] ∧ data ≠ []) ∨
      Closer pc (readerStep ⟨b, m, pc⟩) := by
  cases pc with
  | idle => exact owing.elim
  | loadInactive len | takeInactive len available | reloadInactive len =>
      exact .inr ⟨rfl, owing, by simp [readerStep, ReaderPc.left]⟩
  | loadLength len inactive =>
      obtain rfl : inactive = b.getInactive := locals
      obtain ⟨positive, stored⟩ := owing
      right
      simp only [readerStep]
      split
      · exact ⟨rfl, ⟨positive, by dsimp only; omega⟩, by simp [ReaderPc.left]⟩
      · exact ⟨rfl, ⟨positive, by omega⟩, by simp [ReaderPc.left]⟩
  | testActive len => exact .inr ⟨rfl, owing, by simp [readerStep, ReaderPc.left]⟩
  | clearLength len half =>
      obtain ⟨inactive, -⟩ := locals
      refine .inr ⟨rfl, ⟨owing.1, ?_⟩, by simp [readerStep, ReaderPc.left]⟩
      -- the half given back is not the one with bytes
      have other : b.activeBuffer ≠ half := inactive ▸ b.getInactive_ne.symm
      simpa [readerStep, other] using owing.2
  | setActive len half =>
      obtain ⟨inactive, -⟩ := locals
      refine .inr ⟨rfl, ⟨owing.1, ?_⟩, by simp [readerStep, ReaderPc.left]⟩
      simp only [readerStep, inactive, getInactive_setActive]
      exact owing.2
  | clearReadIdx len =>
      exact .inr ⟨rfl, ⟨owing.1, owing.2⟩, by simp [readerStep, ReaderPc.left]⟩
  | reloadLength len inactive =>
      obtain rfl : inactive = b.getInactive := locals
      exact .inr ⟨rfl, owing, by simp [readerStep, ReaderPc.left]⟩
  | takeCount len available inactive =>
      obtain ⟨positive, some⟩ := owing
      right
      simp only [readerStep, some, if_true]
      refine ⟨rfl, ?_, ?_⟩
      · show 0 < if len < available then len else available
        split <;> omega
      · simp only [ReaderPc.left, List.length_nil]
        split <;> omega
  | copy n source data =>
      right
      simp only [readerStep]
      split
      · refine ⟨rfl, owing, ?_⟩
        simp only [ReaderPc.left, List.length_append, List.length_singleton]
        omega
      · exact ⟨rfl, owing, by simp [ReaderPc.left]⟩
  | advance n data =>
      refine .inr ⟨rfl, ?_, by simp [readerStep, ReaderPc.left]⟩
      obtain ⟨-, bytes⟩ := locals
      have some : 0 < n := owing
      intro none
      have size := congrArg List.length (bytes.symm.trans none)
      simp at size
      omega
  | giveBack data => exact .inl ⟨data, rfl, owing⟩

/-- **A read that owes a byte returns one**, once it has made enough assignments, whatever
is written in between. -/
theorem returns_of_owing {hist : List InterruptOutput} {s : Interrupted} (inv : FifoInv hist s)
    (owing : s.pc.Owing s.buffer) (during : List InterruptEvent)
    (enough : s.pc.left ≤ during.count .step) :
    ∃ bytes, (returnedData (interruptedFSM.outputs s during)).head? = some bytes ∧
      bytes ≠ [] := by
  induction during generalizing hist s with
  | nil =>
      have positive : 0 < s.pc.left := by
        cases pc : s.pc <;> simp_all [ReaderPc.left, ReaderPc.Owing]
      simp at enough
      omega
  | cons event rest ih =>
      have next := fifoInv_next hist s event inv
      rw [Fsm.outputs_cons, returnedData_append]
      cases event with
      | call len =>
          have busy : s.pc ≠ .idle := by
            intro idle
            rw [idle] at owing
            exact owing
          have same : interruptedFSM.next s (.call len) = s := if_neg busy
          rw [same] at next ⊢
          exact ih next owing (by simpa using enough)
      | write data =>
          have keeps := writerKeeps_of_view inv.wf data
          have quiet : returnedData (interruptedFSM.emit s (.write data)) = [] := by
            simp only [Fsm.emit, interruptedFSM, interruptedStep]
            split <;> rfl
          rw [quiet, List.nil_append]
          refine ih next (owing.kept keeps) ?_
          show s.pc.left ≤ rest.count .step
          simpa using enough
      | step =>
          rcases owing_step inv.locals owing with ⟨data, out, some⟩ | closer
          · refine ⟨data, ?_, some⟩
            rw [show interruptedFSM.emit s .step = [.returned data] from out]
            rfl
          · rw [show interruptedFSM.emit s .step = [] from closer.silent]
            refine ih next closer.owing ?_
            have fewer := closer.left
            simp only [List.count_cons_self] at enough
            exact Nat.le_of_lt_succ (Nat.lt_of_lt_of_le fewer enough)

/-- If something is stored, one of the halves has unread bytes. -/
theorem unread_of_stored {b : DoubleBuffer} {m : Mem UInt8} (some : b.stored m ≠ []) :
    0 < b.bufferLengths b.getInactive - b.readIdx ∨ 0 < b.bufferLengths b.activeBuffer := by
  have size : (b.stored m).length =
      b.bufferLengths b.getInactive - b.readIdx + b.bufferLengths b.activeBuffer := by
    simp [DoubleBuffer.stored, DoubleBuffer.pending, DoubleBuffer.fresh]
  have positive := List.length_pos_iff.mpr some
  omega

/-- What the double buffer is for, over one run. -/
structure LosslessFifo (base bufLen : Nat) (mem : Mem UInt8) (events : List InterruptEvent) :
    Prop where
  queue : (interruptedFSM.after (.init base bufLen mem) events).pc = .idle →
    (returnedData (interruptedFSM.outputs (.init base bufLen mem) events)).flatten ++
      (interruptedFSM.after (.init base bufLen mem) events).stored =
        acceptedData (interruptedFSM.outputs (.init base bufLen mem) events)
  refusals : interruptedFSM.EveryStep (fun s event => .refused ∈ interruptedFSM.emit s event →
    interruptedFSM.next s event = s) (.init base bufLen mem) events
  halves : SameHalves base bufLen (interruptedFSM.after (.init base bufLen mem) events)
  copies : interruptedFSM.EveryStep CopiesInside (.init base bufLen mem) events
  reads : (interruptedFSM.after (.init base bufLen mem) events).pc = .idle →
    (interruptedFSM.after (.init base bufLen mem) events).stored ≠ [] →
    ∀ len, 0 < len → ∀ during : List InterruptEvent, len + 13 ≤ during.count .step →
      ∃ bytes, (returnedData (interruptedFSM.outputs
        (interruptedFSM.after (.init base bufLen mem) events) (.call len :: during))).head? =
          some bytes ∧ bytes ≠ []

theorem refused_changes_nothing (s : Interrupted) (event : InterruptEvent)
    (refused : .refused ∈ interruptedFSM.emit s event) : interruptedFSM.next s event = s := by
  cases event with
  | call len => simp [Fsm.emit, interruptedFSM, interruptedStep] at refused
  | step =>
      simp only [Fsm.emit, interruptedFSM, interruptedStep, readerStep] at refused
      split at refused <;> (try split at refused) <;> simp at refused
  | write data =>
      cases ok : (s.buffer.write s.mem data).1 with
      | true => simp [Fsm.emit, interruptedFSM, interruptedStep, ok] at refused
      | false =>
          simp only [Fsm.next, interruptedFSM, interruptedStep, DoubleBuffer.write_refused ok]

/-- **The double buffer is a queue under interrupts.** Over a buffer of any length, for
every run of reads of any lengths with writes between any two assignments of the reader:
whenever no read is in progress, the bytes read and the bytes stored are the bytes
accepted, in order; a refused write changes nothing; every copy stays inside its half; and
a read that starts when bytes are stored returns at least one. -/
theorem doubleBuffer_lossless_under_interrupts (base bufLen : Nat) (mem : Mem UInt8)
    (events : List InterruptEvent) : LosslessFifo base bufLen mem events := by
  have inv := fifoInv_after base bufLen mem events
  constructor
  case queue =>
    intro idle
    have queue := inv.queue
    have empty : ReaderPc.idle.inHand = [] := rfl
    rw [idle, empty, List.append_nil] at queue
    exact queue
  case refusals =>
    rw [Fsm.everyStep_iff]
    intro before event rest _
    exact refused_changes_nothing _ event
  case halves => exact interruptedFSM.invariant_after sameHalves_next ⟨rfl, rfl⟩ events
  case copies =>
    rw [Fsm.everyStep_iff]
    intro before event rest _
    exact copiesInside_of_inv (fifoInv_after base bufLen mem before) event
  case reads =>
    intro idle stored len positive during enough
    have called := fifoInv_next _ _ (.call len) inv
    set s := interruptedFSM.after (.init base bufLen mem) events
    have entered : interruptedFSM.next s (.call len) = { s with pc := .loadInactive len } :=
      if_pos idle
    rw [Fsm.outputs_cons]
    rw [entered] at called ⊢
    exact returns_of_owing called ⟨positive, unread_of_stored stored⟩ during enough

end OlympusFirmware.Usb

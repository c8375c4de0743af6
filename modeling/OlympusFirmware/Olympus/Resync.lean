import Mathlib.Data.List.DropRight
import OlympusFirmware.Olympus.Delivery
import OlympusFirmware.Olympus.Dispatch

/-!
# How the packet parser gets back between packets

Two results about `runCommsFSM` fed with arbitrary bytes. It never stores outside
`packetBuffer` and never stays inside a packet for sixty-four bytes: `left` bounds
what is still to come before `WAITING_FOR_START_1`, whatever the length byte says.

After noise without the start bytes, the next frame is found if the noise ends in an
even number of first start bytes. A byte that fails as second start byte is not
looked at again, so with an odd number the frame's own first byte is taken for the
second one and the frame is lost.
-/

namespace OlympusFirmware.Olympus

open OlympusFirmware.Lib

variable {behind : CommsHandler → Nat → UInt8} {h : CommsHandler} {data : UInt8}

/-! ## Where the parser stores -/

/-- The index of the store into `packetBuffer` that a byte causes, if there is one. -/
def storeIdx (h : CommsHandler) (data : UInt8) : Option Nat :=
  match h.state with
  | .waitingForStart1 => if data = startByte1 then some 0 else none
  | .waitingForStart2 => if data = startByte2 then some 1 else none
  | .waitingForHeader => some h.packetIdx
  | .waitingForData => some h.packetIdx
  | .waitingForCrc => some h.packetIdx

/-- These are all the stores. -/
theorem commsStep_packetBuffer (behind : CommsHandler → Nat → UInt8) (h : CommsHandler)
    (data : UInt8) :
    (commsStep behind h data).1.packetBuffer =
      (storeIdx h data).elim h.packetBuffer (h.packetBuffer.setIfInBounds · data) := by
  cases state : h.state with
  | waitingForStart1 => rw [step_start1 state, storeIdx, state]; split <;> rfl
  | waitingForStart2 => rw [step_start2 state, storeIdx, state]; split <;> rfl
  | waitingForHeader => simp only [commsStep, storeIdx, state]; split_ifs <;> rfl
  | waitingForData => simp only [commsStep, storeIdx, state]; split_ifs <;> rfl
  | waitingForCrc => rw [step_crc state, storeIdx, state]; rfl

/-- A store from a state that meets the invariant is inside the buffer. -/
theorem storeIdx_lt (inv : BufferInv h) {i : Nat} (stored : storeIdx h data = some i) :
    i < maxPacketSize := by
  unfold storeIdx at stored
  unfold maxPacketSize
  cases inv with
  | idle state =>
      simp only [state, Option.ite_none_right_eq_some, Option.some.injEq] at stored
      omega
  | started state =>
      simp only [state, Option.ite_none_right_eq_some, Option.some.injEq] at stored
      omega
  | header state index =>
      simp only [state, Option.some.injEq] at stored
      omega
  | data state low high =>
      simp only [state, Option.some.injEq] at stored
      omega
  | crc state index =>
      simp only [state, Option.some.injEq] at stored
      omega

theorem bufferInv_after (inv : BufferInv h) (stream : List UInt8) :
    BufferInv ((commsFSM behind).after h stream) :=
  (commsFSM behind).invariant_after (fun _ _ => bufferInv_next) inv stream

/-! ## How long a packet can take -/

/-- How many bytes can be consumed before the parser is between packets again. -/
def CommsHandler.left (h : CommsHandler) : Nat :=
  match h.state with
  | .waitingForStart1 => 64
  | .waitingForStart2 => 63
  | .waitingForHeader => 64 - h.packetIdx
  | .waitingForData => 64 - h.packetIdx
  | .waitingForCrc => 1

theorem BufferInv.left_bounds (inv : BufferInv h) : 1 ≤ h.left ∧ h.left ≤ 64 := by
  unfold CommsHandler.left
  cases inv with
  | idle state => simp [state]
  | started state => simp [state]
  | header state index =>
      simp only [state]
      omega
  | data state low high =>
      simp only [state]
      omega
  | crc state => simp [state]

/-- **Progress.** Each byte ends the packet or uses one of the bytes left, for every
length byte. -/
theorem left_next (behind : CommsHandler → Nat → UInt8) (inv : BufferInv h) (data : UInt8) :
    (commsStep behind h data).1.state = .waitingForStart1 ∨
      (commsStep behind h data).1.left + 1 ≤ h.left := by
  cases inv with
  | idle state =>
      rw [step_start1 state]
      split
      · right
        simp [CommsHandler.left, state]
      · exact .inl state
  | started state =>
      rw [step_start2 state]
      split
      · right
        simp [CommsHandler.left, state]
      · exact .inl rfl
  | header state index =>
      right
      rcases index with two | three
      · rw [step_header_two state two]
        simp [CommsHandler.left, state, two]
      · rw [step_header_three state three]
        split <;> simp [CommsHandler.left, state, three]
  | data state low high =>
      rw [step_data state (by omega)]
      split
      · right
        simp only [CommsHandler.left, state]
        omega
      · split
        · exact .inl rfl
        · right
          simp only [CommsHandler.left, CommsHandler.push_state, CommsHandler.push_packetIdx,
            state]
          omega
  | crc state =>
      rw [step_crc state]
      exact .inl rfl

/-- Once `left` bytes have come, the parser has been between packets after one of
them. -/
theorem idle_within (inv : BufferInv h) (window : List UInt8)
    (enough : h.left ≤ window.length) :
    ∃ first rest, window = first ++ rest ∧ first ≠ [] ∧ first.length ≤ h.left ∧
      ((commsFSM behind).after h first).state = .waitingForStart1 := by
  induction window generalizing h with
  | nil =>
      have positive := inv.left_bounds.1
      simp at enough
      omega
  | cons data rest ih =>
      have positive := inv.left_bounds.1
      rcases left_next behind inv data with idle | progress
      · exact ⟨[data], rest, rfl, by simp, by simpa using positive, idle⟩
      · have next : BufferInv (commsStep behind h data).1 := bufferInv_next inv
        obtain ⟨first, later, split, -, short, idle⟩ :=
          ih next (by simp at enough; omega)
        refine ⟨data :: first, later, by rw [split]; rfl, by simp, ?_, idle⟩
        simp only [List.length_cons]
        omega

variable (behind)

/-- **No overrun, no hang.** From any buffer contents and for every stream, every store
is inside `packetBuffer`; and wherever sixty-four consecutive bytes are cut out of a
stream, the parser is in `WAITING_FOR_START_1` after one of them. -/
theorem parser_stays_inside_and_returns (raw : Vector UInt8 64) :
    (∀ stream, (commsFSM behind).EveryStep
      (fun h data => ∀ i, storeIdx h data = some i → i < maxPacketSize) (.init raw) stream) ∧
    (∀ before window : List UInt8, window.length = 64 →
      ∃ first rest, window = first ++ rest ∧ first ≠ [] ∧
        ((commsFSM behind).after (.init raw) (before ++ first)).state = .waitingForStart1) := by
  have start : BufferInv (.init raw) := .idle rfl
  constructor
  · intro stream
    rw [Fsm.everyStep_iff]
    intro before data rest _ i stored
    exact storeIdx_lt (bufferInv_after start before) stored
  · intro before window size
    have inv : BufferInv ((commsFSM behind).after (.init raw) before) :=
      bufferInv_after start before
    have enough : ((commsFSM behind).after (.init raw) before).left ≤ window.length := by
      rw [size]
      exact inv.left_bounds.2
    obtain ⟨first, rest, split, nonempty, -, idle⟩ := idle_within inv window enough
    exact ⟨first, rest, split, nonempty, by rw [Fsm.after_append]; exact idle⟩

/-! ## Noise before a frame -/

/-- How many first start bytes the noise ends in. -/
def trailingStarts (noise : List UInt8) : Nat := (noise.rtakeWhile (· == startByte1)).length

/-- A `runPacket` call with exactly the frame's bytes. -/
def Frame.isRunBy (f : Frame) : Call → Bool
  | .runPacket p => p.bytes == f.bytes
  | .sendResponse _ => false

/-- The frame behind the noise is dispatched exactly once. -/
def Resyncs (h : CommsHandler) (noise : List UInt8) (f : Frame) : Prop :=
  ((commsFSM behind).outputs h (noise ++ f.bytes)).countP f.isRunBy = 1

instance (h : CommsHandler) (noise : List UInt8) (f : Frame) :
    Decidable (Resyncs behind h noise f) :=
  inferInstanceAs (Decidable (_ = _))

theorem trailingStarts_start (noise : List UInt8) :
    trailingStarts (noise ++ [startByte1]) = trailingStarts noise + 1 := by
  unfold trailingStarts
  rw [List.rtakeWhile_concat_pos _ _ _ (by simp)]
  simp

theorem trailingStarts_other (noise : List UInt8) (other : data ≠ startByte1) :
    trailingStarts (noise ++ [data]) = 0 := by
  unfold trailingStarts
  rw [List.rtakeWhile_concat_neg _ _ _ (by simpa using other)]
  rfl

/-- Noise that ends in a start byte ends in a suffix of them. -/
theorem start_suffix {noise : List UInt8} (positive : trailingStarts noise ≠ 0) :
    [startByte1] <:+ noise := by
  induction noise using List.reverseRecOn with
  | nil => exact absurd rfl positive
  | append_singleton noise data =>
      by_cases start : data = startByte1
      · rw [start]
        exact List.suffix_append noise [startByte1]
      · exact absurd (trailingStarts_other noise start) positive

/-- Between packets, or with a first start byte just received. -/
structure Hunting (start : CommsHandler) (noise : List UInt8) (h : CommsHandler) : Prop where
  state : h.state =
    if trailingStarts noise % 2 = 0 then .waitingForStart1 else .waitingForStart2
  silent : (commsFSM behind).outputs start noise = []
  packetLen : h.packetLen = start.packetLen

variable {behind} {start : CommsHandler} {noise : List UInt8}

/-- One byte of noise flips the parity of the start bytes or clears it. -/
theorem Hunting.next (now : Hunting behind start noise h)
    (reached : (commsFSM behind).after start noise = h)
    (clean : ¬ [startByte1, startByte2] <:+: noise ++ [data]) :
    Hunting behind start (noise ++ [data]) (commsStep behind h data).1 := by
  have quiet : h.state ≠ .waitingForCrc := by
    rw [now.state]
    split <;> simp
  have silent : (commsFSM behind).outputs start (noise ++ [data]) = [] := by
    rw [Fsm.outputs_append, now.silent, reached, Fsm.outputs_cons, emit_eq_nil quiet]
    rfl
  by_cases even : trailingStarts noise % 2 = 0
  · have idle : h.state = .waitingForStart1 := by rw [now.state, if_pos even]
    rw [step_start1 idle]
    by_cases first : data = startByte1
    · have odd : ¬ trailingStarts (noise ++ [data]) % 2 = 0 := by
        rw [first, trailingStarts_start]
        omega
      rw [if_pos first]
      exact ⟨(if_neg odd).symm, silent, (h.store_packetLen 0 data).trans now.packetLen⟩
    · have zero : trailingStarts (noise ++ [data]) % 2 = 0 := by
        rw [trailingStarts_other noise first]
      rw [if_neg first]
      exact ⟨idle.trans (if_pos zero).symm, silent, now.packetLen⟩
  · have started : h.state = .waitingForStart2 := by rw [now.state, if_neg even]
    -- the noise ends in a first start byte, so this is not the second one
    have notSecond : data ≠ startByte2 := by
      rintro rfl
      have started : trailingStarts noise ≠ 0 := by omega
      obtain ⟨before, split⟩ := start_suffix started
      exact clean ⟨before, [], by rw [← split]; simp⟩
    have evenNow : trailingStarts (noise ++ [data]) % 2 = 0 := by
      by_cases first : data = startByte1
      · rw [first, trailingStarts_start]
        omega
      · rw [trailingStarts_other noise first]
    rw [step_start2 started, if_neg notSecond]
    exact ⟨(if_pos evenNow).symm, silent, now.packetLen⟩

/-- What noise without the start bytes does to the parser. -/
theorem hunting_after (idle : start.state = .waitingForStart1)
    (clean : ¬ [startByte1, startByte2] <:+: noise) :
    Hunting behind start noise ((commsFSM behind).after start noise) := by
  induction noise using List.reverseRecOn with
  | nil => exact ⟨idle, rfl, rfl⟩
  | append_singleton noise data ih =>
      have before : ¬ [startByte1, startByte2] <:+: noise := by
        intro found
        exact clean (found.trans (List.prefix_append noise [data]).isInfix)
      rw [Fsm.after_append]
      exact (ih before).next rfl clean

/-- The calls of a frame found between packets: the frame, once. -/
theorem outputs_frame (idle : h.state = .waitingForStart1) (fresh : h.packetLen ≠ 5) (f : Frame) :
    ∃ p : Packet, p.bytes = f.bytes ∧
      (commsFSM behind).outputs h f.bytes = [.runPacket p, .sendResponse p] := by
  obtain ⟨h', h'', p, reached, silent, step, bytes, -⟩ := frame_dispatched behind idle fresh f
  refine ⟨p, bytes, ?_⟩
  show (commsFSM behind).outputs h ((f.head ++ f.body) ++ [f.crc]) = _
  rw [Fsm.outputs_append, silent, reached, Fsm.outputs_cons, Fsm.emit,
    show (commsFSM behind).step h' f.crc = _ from step]
  rfl

/-- A frame that arrives when a first start byte has just been received loses its own
start bytes, and the rest is too short to be the frame. -/
theorem frame_missed (state : h.state = .waitingForStart2) (fresh : h.packetLen ≠ 5)
    (f : Frame) : ((commsFSM behind).outputs h f.bytes).countP f.isRunBy = 0 := by
  let idle : CommsHandler := { h with state := .waitingForStart1, packetIdx := 0 }
  have kept : idle.packetLen ≠ 5 := fresh
  have first : (commsFSM behind).step h startByte1 =
      ({ h with state := .waitingForStart1 }, []) := by
    show commsStep behind h startByte1 = _
    rw [step_start2 state, if_neg (by decide)]
  have second : (commsFSM behind).step { h with state := .waitingForStart1 } startByte2 =
      (idle, []) := by
    show commsStep behind { h with state := .waitingForStart1 } startByte2 = (idle, [])
    rw [step_start1 rfl, if_neg (by decide)]
  have split : f.bytes = startByte1 :: startByte2 ::
      ([f.msgType, f.seqNumber] ++ f.body ++ [f.crc]) := rfl
  rw [split, Fsm.outputs_cons, Fsm.outputs_cons, Fsm.emit, Fsm.next, first, Fsm.emit, Fsm.next,
    second, List.nil_append, List.nil_append, List.countP_eq_zero]
  intro call member isRun
  cases call with
  | sendResponse p => simp [Frame.isRunBy] at isRun
  | runPacket p =>
      have whole : p.bytes = f.bytes := by simpa [Frame.isRunBy] using isRun
      rw [← (commsFSM behind).map_snd_trace [], List.mem_map] at member
      obtain ⟨⟨consumed, call⟩, traced, rfl⟩ := member
      have short : ([f.msgType, f.seqNumber] ++ f.body ++ [f.crc]).length + 2 ≤
          f.bytes.length := by simp [Frame.body]
      exact not_dispatched_of_short rfl kept short whole traced

variable (behind)

/-- **Resynchronisation.** Take a parser between packets whose left-over length is not
five. After any noise without the two start bytes in a row, the next well-formed frame
is dispatched exactly once if and only if the noise ends in an even number of first
start bytes. -/
theorem resyncs_iff_even (h : CommsHandler) (noise : List UInt8) (f : Frame)
    (idle : h.state = .waitingForStart1) (fresh : h.packetLen ≠ 5)
    (clean : ¬ [startByte1, startByte2] <:+: noise) :
    Resyncs behind h noise f ↔ trailingStarts noise % 2 = 0 := by
  have hunting : Hunting behind h noise ((commsFSM behind).after h noise) :=
    hunting_after idle clean
  have kept : ((commsFSM behind).after h noise).packetLen ≠ 5 := by
    rw [hunting.packetLen]
    exact fresh
  unfold Resyncs
  rw [Fsm.outputs_append, hunting.silent, List.nil_append]
  by_cases even : trailingStarts noise % 2 = 0
  · have between : ((commsFSM behind).after h noise).state = .waitingForStart1 :=
      hunting.state.trans (if_pos even)
    obtain ⟨p, bytes, calls⟩ := outputs_frame between kept f
    rw [calls]
    simp [Frame.isRunBy, bytes, even]
  · rw [frame_missed (hunting.state.trans (if_neg even)) kept f]
    simp [even]

/-- Two stray start bytes cost nothing. -/
theorem resyncs_after_two_starts :
    Resyncs (fun _ _ => 0) (.init (Vector.replicate 64 0)) [0x42, 0xF0, 0xF0] statusRequest :=
  (resyncs_iff_even (fun _ _ => 0) (.init (Vector.replicate 64 0)) [0x42, 0xF0, 0xF0]
    statusRequest rfl (by decide +kernel) (by decide)).mpr (by decide)

/-- One stray start byte costs the next request. -/
theorem statusRequest_missed_after_start :
    (CommsHandler.init (Vector.replicate 64 0)).packetLen ≠ 5 ∧
      ¬ [startByte1, startByte2] <:+: [startByte1] ∧
      ¬ Resyncs (fun _ _ => 0) (.init (Vector.replicate 64 0)) [startByte1] statusRequest := by
  decide +kernel

end OlympusFirmware.Olympus

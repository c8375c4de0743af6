import OlympusFirmware.Olympus.Comms

/-!
# What the packet parser dispatches

Two whole-run results about `runCommsFSM`. The parser decides between
`WAITING_FOR_CRC` and `WAITING_FOR_DATA` when four bytes are in, one byte before
the length byte arrives, so it reads the length an earlier packet left in the
buffer. Everything is right as long as that left-over length is not five
(`NotStale`): then every dispatched packet is exactly the bytes just received,
and every well-formed frame is dispatched. A left-over five makes the parser
take the length byte for the checksum, and both properties are lost.
-/

namespace OlympusFirmware.Olympus

open OlympusFirmware.Lib

variable (behind : CommsHandler → Nat → UInt8)

/-! ## One step at a time -/

section Steps

variable {behind} {h : CommsHandler} {data : UInt8}

theorem step_start1 (hs : h.state = .waitingForStart1) :
    commsStep behind h data =
      if data = startByte1 then
        ({ h.store 0 data with state := .waitingForStart2, packetIdx := 1 }, [])
      else ({ h with packetIdx := 0 }, []) := by
  simp only [commsStep, hs]

theorem step_start2 (hs : h.state = .waitingForStart2) :
    commsStep behind h data =
      if data = startByte2 then
        ({ h.store 1 data with state := .waitingForHeader, packetIdx := 2 }, [])
      else ({ h with state := .waitingForStart1 }, []) := by
  simp only [commsStep, hs]

/-- The header byte before the last. -/
theorem step_header_two (hs : h.state = .waitingForHeader) (hi : h.packetIdx = 2) :
    commsStep behind h data = (h.push data, []) := by
  simp [commsStep, hs, hi, packetHeaderSize]

/-- The last header byte collected in `WAITING_FOR_HEADER`. -/
theorem step_header_three (hs : h.state = .waitingForHeader) (hi : h.packetIdx = 3) :
    commsStep behind h data =
      if h.packetLen = 5 then ({ h.push data with state := .waitingForCrc }, [])
      else ({ h.push data with state := .waitingForData }, []) := by
  -- the byte goes to position 3, so the length read is the old one
  have four : (4 = (h.push data).lastIdx) ↔ h.packetLen = 5 := by
    rw [CommsHandler.eq_lastIdx_iff _ (by omega), CommsHandler.push_packetLen,
      if_neg (by omega), ← UInt8.toNat_inj]
    simp [eq_comm]
  by_cases stale : h.packetLen = 5
  · simp [commsStep, hs, hi, packetHeaderSize, four.mpr stale, stale]
  · have fresh : ¬ 4 = (h.push data).lastIdx := fun eq => stale (four.mp eq)
    simp [commsStep, hs, hi, packetHeaderSize, fresh, stale]

theorem step_data (hs : h.state = .waitingForData) (hi : h.packetIdx < 64) :
    commsStep behind h data =
      if h.packetIdx + 2 = (h.push data).packetLen.toNat then
        ({ h.push data with state := .waitingForCrc }, [])
      else if 63 ≤ h.packetIdx + 1 then
        ({ h.push data with state := .waitingForStart1 }, [])
      else (h.push data, []) := by
  have last := (h.push data).eq_lastIdx_iff (i := h.packetIdx + 1) (by omega)
  by_cases done : h.packetIdx + 2 = (h.push data).packetLen.toNat
  · simp [commsStep, hs, last.mpr done, done]
  · have more : ¬ h.packetIdx + 1 = (h.push data).lastIdx := fun eq => done (last.mp eq)
    simp [commsStep, hs, maxPacketSize, more, done]

theorem step_crc (hs : h.state = .waitingForCrc) :
    commsStep behind h data =
      ({ h.store h.packetIdx data with state := .waitingForStart1 },
        if checkPacket ((h.store h.packetIdx data).packet behind) then
          [.runPacket ((h.store h.packetIdx data).packet behind),
            .sendResponse ((h.store h.packetIdx data).packet behind)]
        else []) := by
  by_cases ok : checkPacket ((h.store h.packetIdx data).packet behind) = true
  · simp [commsStep, hs, ok]
  · simp [commsStep, hs, ok]

/-- Only the checksum byte of a packet makes the parser call anything. -/
theorem emit_eq_nil (hs : h.state ≠ .waitingForCrc) :
    (commsFSM behind).emit h data = [] := by
  show (commsStep behind h data).2 = []
  cases state : h.state with
  | waitingForStart1 => rw [step_start1 state]; split <;> rfl
  | waitingForStart2 => rw [step_start2 state]; split <;> rfl
  | waitingForHeader => simp only [commsStep, state]; split_ifs <;> rfl
  | waitingForData => simp only [commsStep, state]; split_ifs <;> rfl
  | waitingForCrc => exact absurd state hs

end Steps

/-! ## Soundness: what is dispatched was received -/

/-- The step does not decide by a left-over length byte of five. -/
def NotStale (h : CommsHandler) (_data : UInt8) : Prop :=
  ¬ (h.state = .waitingForHeader ∧ h.packetIdx = 3 ∧ h.packetLen = 5)

instance (h : CommsHandler) (data : UInt8) : Decidable (NotStale h data) :=
  inferInstanceAs (Decidable (¬ _))

/-- A dispatched packet is what it should be: exactly the last `packetLen` bytes
of the stream, received while the parser was working on this packet and no
other, with the start bytes, the length and the checksum in place. -/
structure Sound (start : CommsHandler) (consumed : List UInt8) (p : Packet) : Prop where
  origin : ∃ earlier, consumed = earlier ++ p.bytes ∧
    ((commsFSM behind).after start earlier).state = .waitingForStart1
  length : p.bytes.length = p.packetLen.toNat
  startBytes : [startByte1, startByte2] <+: p.bytes
  lengthByte : p.bytes[4]? = some p.packetLen
  bounds : 6 ≤ p.packetLen.toNat ∧ p.packetLen.toNat ≤ 64
  crc : crc8 p.bytes = 0

/-- Every packet handed to `runPacket` while `stream` is consumed is sound. -/
def SoundRun (start : CommsHandler) (stream : List UInt8) : Prop :=
  ∀ consumed p, (consumed, Call.runPacket p) ∈ (commsFSM behind).trace [] start stream →
    Sound behind start consumed p

variable {behind} in
/-- A sound packet is the end of what was consumed. -/
theorem Sound.suffix {start : CommsHandler} {consumed : List UInt8} {p : Packet}
    (sound : Sound behind start consumed p) : p.bytes <:+ consumed := by
  obtain ⟨earlier, rfl, -⟩ := sound.origin
  exact List.suffix_append earlier p.bytes

/-- The bytes collected so far are the last ones consumed, and the parser was
between packets before them. -/
def Collected (start : CommsHandler) (consumed : List UInt8) (h : CommsHandler) : Prop :=
  ∃ earlier, consumed = earlier ++ h.received ∧
    ((commsFSM behind).after start earlier).state = .waitingForStart1

/-- What links state, index, length byte and stream, one case per state. -/
inductive ParserInv (start : CommsHandler) (consumed : List UInt8) (h : CommsHandler) : Prop
  | idle (state : h.state = .waitingForStart1)
  | started (state : h.state = .waitingForStart2) (index : h.packetIdx = 1)
      (first : h.received = [startByte1]) (collected : Collected behind start consumed h)
  | header (state : h.state = .waitingForHeader) (index : h.packetIdx = 2 ∨ h.packetIdx = 3)
      (first : [startByte1, startByte2] <+: h.received)
      (collected : Collected behind start consumed h)
  | data (state : h.state = .waitingForData) (low : 4 ≤ h.packetIdx) (high : h.packetIdx < 63)
      (first : [startByte1, startByte2] <+: h.received)
      (collected : Collected behind start consumed h)
  | crc (state : h.state = .waitingForCrc) (low : 5 ≤ h.packetIdx) (high : h.packetIdx ≤ 63)
      (length : h.packetIdx + 1 = h.packetLen.toNat)
      (first : [startByte1, startByte2] <+: h.received)
      (collected : Collected behind start consumed h)

variable {behind} {start h : CommsHandler} {consumed : List UInt8} {data : UInt8}

theorem Collected.push (collected : Collected behind start consumed h)
    (fits : h.packetIdx < 64) : Collected behind start (consumed ++ [data]) (h.push data) := by
  obtain ⟨earlier, rfl, idle⟩ := collected
  exact ⟨earlier, by rw [h.received_push data fits, List.append_assoc], idle⟩

/-- The state does not matter for what has been collected. -/
theorem Collected.withState (collected : Collected behind start consumed h)
    (state : CommsState) : Collected behind start consumed { h with state := state } :=
  collected

theorem startBytes_push (first : [startByte1, startByte2] <+: h.received)
    (fits : h.packetIdx < 64) : [startByte1, startByte2] <+: (h.push data).received := by
  rw [h.received_push data fits]
  exact first.trans (List.prefix_append _ _)

theorem parserInv_start1 (state : h.state = .waitingForStart1)
    (reached : (commsFSM behind).after start consumed = h) :
    ParserInv behind start (consumed ++ [data]) (commsStep behind h data).1 := by
  rw [step_start1 state]
  split
  · rename_i isStart
    have one := h.take_store data (i := 0) (by omega)
    refine .started rfl rfl ?_ ⟨consumed, ?_, by rw [reached]; exact state⟩
    · simpa [CommsHandler.received, isStart] using one
    · simpa [CommsHandler.received] using one.symm
  · exact .idle state

theorem parserInv_start2 (state : h.state = .waitingForStart2) (index : h.packetIdx = 1)
    (first : h.received = [startByte1]) (collected : Collected behind start consumed h) :
    ParserInv behind start (consumed ++ [data]) (commsStep behind h data).1 := by
  rw [step_start2 state]
  split
  · rename_i isStart
    -- the code stores at the constant 1, which is where the index is
    have pushed : { h.store 1 data with state := .waitingForHeader, packetIdx := 2 } =
        { h.push data with state := .waitingForHeader } := by
      simp [CommsHandler.push, index]
    rw [pushed]
    refine .header rfl (.inl (by simp [index])) ?_
      ((collected.push (by omega)).withState _)
    show _ <+: (h.push data).received
    rw [h.received_push data (by omega), first, isStart]
    exact List.prefix_rfl
  · exact .idle rfl

theorem parserInv_header (state : h.state = .waitingForHeader)
    (index : h.packetIdx = 2 ∨ h.packetIdx = 3)
    (first : [startByte1, startByte2] <+: h.received)
    (collected : Collected behind start consumed h) (fresh : NotStale h data) :
    ParserInv behind start (consumed ++ [data]) (commsStep behind h data).1 := by
  have fits : h.packetIdx < 64 := by omega
  rcases index with two | three
  · rw [step_header_two state two]
    exact .header state (.inr (by simp [two])) (startBytes_push first fits)
      (collected.push fits)
  · have notFive : h.packetLen ≠ 5 := fun five => fresh ⟨state, three, five⟩
    rw [step_header_three state three, if_neg notFive]
    exact .data rfl (by simp [three]) (by simp [three]) (startBytes_push first fits)
      ((collected.push fits).withState _)

theorem parserInv_data (state : h.state = .waitingForData) (low : 4 ≤ h.packetIdx)
    (high : h.packetIdx < 63) (first : [startByte1, startByte2] <+: h.received)
    (collected : Collected behind start consumed h) :
    ParserInv behind start (consumed ++ [data]) (commsStep behind h data).1 := by
  have fits : h.packetIdx < 64 := by omega
  rw [step_data state fits]
  split
  · rename_i last
    exact .crc rfl (by simp; omega) (by simp; omega) last (startBytes_push first fits)
      ((collected.push fits).withState _)
  · split
    · exact .idle rfl
    · exact .data state (by simp; omega) (by simp; omega) (startBytes_push first fits)
        (collected.push fits)

/-- One step keeps the invariant, whatever the byte, unless it decides by a
left-over five. -/
theorem parserInv_next (reached : (commsFSM behind).after start consumed = h)
    (inv : ParserInv behind start consumed h) (fresh : NotStale h data) :
    ParserInv behind start (consumed ++ [data]) (commsStep behind h data).1 := by
  cases inv with
  | idle state => exact parserInv_start1 state reached
  | started state index first collected => exact parserInv_start2 state index first collected
  | header state index first collected =>
      exact parserInv_header state index first collected fresh
  | data state low high first collected => exact parserInv_data state low high first collected
  | crc state low high length first collected =>
      rw [step_crc state]
      exact .idle rfl

/-- The packet seen when the checksum byte arrives is what was collected, and
that byte. -/
theorem packet_bytes_crc (low : 5 ≤ h.packetIdx) (high : h.packetIdx ≤ 63)
    (length : h.packetIdx + 1 = h.packetLen.toNat) :
    ((h.store h.packetIdx data).packet behind).bytes = h.received ++ [data] := by
  have same : (h.store h.packetIdx data).packetLen = h.packetLen := by
    rw [h.store_packetLen, if_neg (by omega)]
  rw [CommsHandler.packet_bytes _ _ (by rw [same]; omega), same, ← length,
    h.take_store data (by omega)]
  rfl

/-- A dispatch from a state that meets the invariant is sound. -/
theorem sound_of_parserInv (inv : ParserInv behind start consumed h) {p : Packet}
    (dispatched : Call.runPacket p ∈ (commsStep behind h data).2) :
    Sound behind start (consumed ++ [data]) p := by
  have state : h.state = .waitingForCrc := by
    by_contra other
    have silent : (commsStep behind h data).2 = [] := emit_eq_nil other
    rw [silent] at dispatched
    simp at dispatched
  cases inv with
  | crc _ low high length first collected =>
      rw [step_crc state] at dispatched
      split at dispatched
      case isFalse => simp at dispatched
      rename_i checked
      obtain rfl : p = (h.store h.packetIdx data).packet behind := by
        simpa using dispatched
      have bytes : ((h.store h.packetIdx data).packet behind).bytes = h.received ++ [data] :=
        packet_bytes_crc low high length
      have size := h.length_received (by omega)
      have lenEq : ((h.store h.packetIdx data).packet behind).packetLen = h.packetLen := by
        rw [CommsHandler.packet_packetLen, h.store_packetLen, if_neg (by omega)]
      obtain ⟨earlier, rfl, idle⟩ := collected
      refine ⟨⟨earlier, by rw [bytes, List.append_assoc], idle⟩, ?_, ?_, ?_, ?_, ?_⟩
      · rw [bytes, lenEq, ← length]
        simp [size]
      · rw [bytes]
        exact first.trans (List.prefix_append _ _)
      · rw [bytes, lenEq, List.getElem?_append_left (by omega)]
        exact h.received_packetLen low
      · rw [lenEq]
        omega
      · simpa [checkPacket] using checked
  | idle other | started other | header other | data other => simp [state] at other

/-- The invariant along a run that never decides by a left-over five. -/
theorem parserInv_after (idle : start.state = .waitingForStart1) {stream : List UInt8}
    (fresh : (commsFSM behind).EveryStep NotStale start stream) :
    ParserInv behind start stream ((commsFSM behind).after start stream) := by
  have run := (commsFSM behind).invariant
    (I := fun seen h => (commsFSM behind).after start seen = h ∧ ParserInv behind start seen h)
    (fun seen h byte inv notStale =>
      ⟨by simp [Fsm.after_append, inv.1], parserInv_next inv.1 inv.2 notStale⟩)
    [] ⟨rfl, .idle idle⟩ fresh
  simpa using run.2

theorem soundRun_of_notStale (idle : start.state = .waitingForStart1) {stream : List UInt8}
    (fresh : (commsFSM behind).EveryStep NotStale start stream) :
    SoundRun behind start stream := by
  intro consumed p member
  obtain ⟨cut, byte, rest, rfl, rfl, emitted⟩ := (commsFSM behind).mem_trace member
  have freshCut := (((commsFSM behind).everyStep_append _ _ _ _).mp fresh).1
  simpa using sound_of_parserInv (parserInv_after idle freshCut) emitted

/-- A checksum byte that completes a packet with a zero checksum dispatches it. -/
theorem dispatch_mem_trace (start : CommsHandler) (cut : List UInt8) (byte : UInt8) {p : Packet}
    (state : ((commsFSM behind).after start cut).state = .waitingForCrc)
    (view : p = (((commsFSM behind).after start cut).store
      ((commsFSM behind).after start cut).packetIdx byte).packet behind)
    (checked : checkPacket p = true) :
    (cut ++ [byte], Call.runPacket p) ∈
      (commsFSM behind).trace [] start (cut ++ [byte]) := by
  rw [Fsm.trace_append, List.mem_append, Fsm.trace_singleton]
  refine .inr (List.mem_map.mpr ⟨.runPacket p, ?_, by simp⟩)
  show _ ∈ (commsStep behind _ byte).2
  rw [step_crc state, ← view, if_pos checked]
  exact List.mem_cons_self

/-- From a left-over five, a zero length byte is dispatched as an empty packet. -/
theorem unsound_of_stale {cut : List UInt8} {byte : UInt8}
    (stale : ¬ NotStale ((commsFSM behind).after start cut) byte) :
    ¬ SoundRun behind start (cut ++ [byte] ++ [0]) := by
  intro sound
  obtain ⟨state, three, five⟩ := not_not.mp stale
  set h := (commsFSM behind).after start cut
  have reached : (commsFSM behind).after start (cut ++ [byte]) =
      { h.push byte with state := .waitingForCrc } := by
    rw [Fsm.after_append]
    show (commsStep behind h byte).1 = _
    rw [step_header_three state three, if_pos five]
  set h' := (commsFSM behind).after start (cut ++ [byte])
  have zero : ((h'.store h'.packetIdx 0).packet behind).packetLen = 0 := by
    rw [CommsHandler.packet_packetLen, CommsHandler.store_packetLen, if_pos]
    simp [reached, three]
  have member := dispatch_mem_trace start (cut ++ [byte]) 0
    (by rw [show (commsFSM behind).after start (cut ++ [byte]) = h' from rfl, reached]) rfl
    (by simp [checkPacket, Packet.bytes, h', zero, crc8])
  have bounds := (sound _ _ member).bounds
  rw [zero] at bounds
  simp at bounds

variable (behind)

/-- **Soundness of the parser.** From any buffer contents, a stream during which
the left-over length is never five when it is looked at dispatches sound packets
only. The condition is exact: otherwise some cut of the stream, continued by one
byte, dispatches a packet that is not sound. -/
theorem dispatched_packets_sound (raw : Vector UInt8 64) (stream : List UInt8) :
    ((commsFSM behind).EveryStep NotStale (.init raw) stream →
      SoundRun behind (.init raw) stream) ∧
    (¬ (commsFSM behind).EveryStep NotStale (.init raw) stream →
      ∃ cut rest byte, stream = cut ++ rest ∧
        ¬ SoundRun behind (.init raw) (cut ++ [byte])) := by
  refine ⟨soundRun_of_notStale rfl, fun stale => ?_⟩
  rw [Fsm.everyStep_iff] at stale
  push Not at stale
  obtain ⟨cut, byte, rest, rfl, stale⟩ := stale
  exact ⟨cut ++ [byte], rest, 0, by simp, unsound_of_stale stale⟩

/-- A frame with length byte five is dropped when the buffer is full, but its
bytes stay: here the reset command's key and checksum. -/
def droppedFrame : List UInt8 :=
  [0xF0, 0x5A, 0x00, 0x00, 0x05, 0x50, 0x41, 0x4C, 0x46, 0x55] ++ List.replicate 53 0

/-- From a cleared buffer, the first five bytes of a reset command then dispatch
the complete command: its key was never sent after them. -/
theorem bare_header_dispatches_unsound :
    ¬ SoundRun (fun _ _ => 0) (.init (Vector.replicate 64 0))
      (droppedFrame ++ [0xF0, 0x5A, 0x22, 0x00] ++ [0x0A]) := by
  intro sound
  have member := @dispatch_mem_trace (fun _ _ => 0) (.init (Vector.replicate 64 0))
    (droppedFrame ++ [0xF0, 0x5A, 0x22, 0x00]) 0x0A _
    (by decide +kernel) rfl (by decide +kernel)
  have received := (sound _ _ member).suffix
  revert received
  decide +kernel

end OlympusFirmware.Olympus

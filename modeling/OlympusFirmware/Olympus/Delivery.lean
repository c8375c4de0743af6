import OlympusFirmware.Olympus.Framing

/-!
# Which frames the packet parser delivers

A well-formed frame that starts while the parser is between packets is
dispatched once, on its last byte and with exactly its bytes, if and only if the
length byte left in the buffer is not five. The forward direction follows the
frame through the states; the other one shows that after a left-over five the
frame's length byte is consumed as a checksum, and that what remains of the frame
is too short to be dispatched as the whole of it.
-/

namespace OlympusFirmware.Olympus

open OlympusFirmware.Lib

/-- A well-formed frame: start bytes, type, sequence number, the total length,
payload, and a checksum that makes `crc8` over everything zero. -/
structure Frame where
  msgType : UInt8
  seqNumber : UInt8
  payload : List UInt8
  crc : UInt8
  fits : payload.length + 6 ≤ 64
  checksum : crc8 ([startByte1, startByte2, msgType, seqNumber] ++
    (UInt8.ofNat (payload.length + 6) :: payload) ++ [crc]) = 0

namespace Frame

/-- The length byte. -/
def packetLen (f : Frame) : UInt8 := UInt8.ofNat (f.payload.length + 6)

/-- Everything before the length byte. -/
def head (f : Frame) : List UInt8 := [startByte1, startByte2, f.msgType, f.seqNumber]

/-- The length byte and the payload. -/
def body (f : Frame) : List UInt8 := f.packetLen :: f.payload

/-- The frame as it is sent. -/
def bytes (f : Frame) : List UInt8 := f.head ++ f.body ++ [f.crc]

theorem packetLen_toNat (f : Frame) : f.packetLen.toNat = f.payload.length + 6 := by
  have := f.fits
  simp [packetLen]
  omega

@[simp] theorem length_bytes (f : Frame) : f.bytes.length = f.payload.length + 6 := by
  simp [bytes, head, body]

theorem packetLen_ne_five (f : Frame) : f.packetLen ≠ 5 := by
  intro five
  have size := f.packetLen_toNat
  rw [five] at size
  simp at size

end Frame

variable (behind : CommsHandler → Nat → UInt8)

/-- The frame is delivered: `runPacket` and `sendResponse` are called exactly
once, when all of the frame and nothing more has been consumed, with the frame's
bytes; however the frame is cut into calls of `runCommsFSM`, these are all the
calls made and the parser ends between packets. -/
def Delivered (h : CommsHandler) (frame : List UInt8) : Prop :=
  ∃ p : Packet, p.bytes = frame ∧
    (commsFSM behind).trace [] h frame =
      [(frame, .runPacket p), (frame, .sendResponse p)] ∧
    ∀ calls : List (List UInt8), calls.flatten = frame →
      (runCalls behind h calls).2 = [.runPacket p, .sendResponse p] ∧
      (runCalls behind h calls).1.state = .waitingForStart1

/-! ## A frame that is received -/

/-- In the data phase, with `got` collected. -/
structure Receiving (h : CommsHandler) (got : List UInt8) : Prop where
  state : h.state = .waitingForData
  index : h.packetIdx = got.length
  bytes : h.received = got

variable {h : CommsHandler}

/-- The first start byte, between packets. -/
theorem step_first (idle : h.state = .waitingForStart1) :
    ∃ h', commsStep behind h startByte1 = (h', []) ∧ h'.state = .waitingForStart2 ∧
      h'.packetIdx = 1 ∧ h'.received = [startByte1] ∧
      ∀ i, 4 ≤ i → (inside : i < 64) → h'.packetBuffer[i] = h.packetBuffer[i] := by
  rw [step_start1 idle, if_pos rfl]
  refine ⟨_, rfl, rfl, rfl, ?_, ?_⟩
  · simpa [CommsHandler.received] using h.take_store startByte1 (i := 0) (by omega)
  · intro i four inside
    exact h.store_kept startByte1 inside (by omega)

/-- The second start byte. -/
theorem step_second (state : h.state = .waitingForStart2) (index : h.packetIdx = 1) :
    ∃ h', commsStep behind h startByte2 = (h', []) ∧ h'.state = .waitingForHeader ∧
      h'.packetIdx = 2 ∧ h'.received = h.received ++ [startByte2] ∧
      ∀ i, 4 ≤ i → (inside : i < 64) → h'.packetBuffer[i] = h.packetBuffer[i] := by
  rw [step_start2 state, if_pos rfl]
  refine ⟨_, rfl, rfl, rfl, ?_, ?_⟩
  · have pushed := h.take_store startByte2 (i := 1) (by omega)
    simpa [CommsHandler.received, index] using pushed
  · intro i four inside
    exact h.store_kept startByte2 inside (by omega)

/-- Four bytes of a header, from between packets. They leave the rest of the buffer. -/
theorem after_header (idle : h.state = .waitingForStart1) (msgType seqNumber : UInt8) :
    ∃ h' : CommsHandler,
      (commsFSM behind).after h [startByte1, startByte2, msgType, seqNumber] = h' ∧
      (commsFSM behind).outputs h [startByte1, startByte2, msgType, seqNumber] = [] ∧
      h'.state = (if h.packetLen = 5 then .waitingForCrc else .waitingForData) ∧
      h'.packetIdx = 4 ∧ h'.received = [startByte1, startByte2, msgType, seqNumber] ∧
      ∀ i, 4 ≤ i → (inside : i < 64) → h'.packetBuffer[i] = h.packetBuffer[i] := by
  obtain ⟨h1, s1, state1, index1, got1, kept1⟩ := step_first behind idle
  obtain ⟨h2, s2, state2, index2, got2, kept2⟩ := step_second behind state1 index1
  have s3 : commsStep behind h2 msgType = (h2.push msgType, []) :=
    step_header_two state2 index2
  have s4 : commsStep behind (h2.push msgType) seqNumber = _ :=
    step_header_three state2 (by simp [index2])
  have kept3 : ∀ i, 4 ≤ i → (inside : i < 64) →
      (h2.push msgType).packetBuffer[i] = h.packetBuffer[i] := by
    intro i four inside
    rw [show (h2.push msgType).packetBuffer[i] = h2.packetBuffer[i] from
      h2.store_kept msgType inside (by omega), kept2 i four inside, kept1 i four inside]
  have len3 : (h2.push msgType).packetLen = h.packetLen := kept3 4 (by omega) (by omega)
  have got4 : ((h2.push msgType).push seqNumber).received =
      [startByte1, startByte2, msgType, seqNumber] := by
    rw [(h2.push msgType).received_push _ (by simp [index2]),
      h2.received_push _ (by omega), got2, got1]
    rfl
  rw [len3] at s4
  have silent : (commsFSM behind).outputs h [startByte1, startByte2, msgType, seqNumber] = [] := by
    simp only [Fsm.outputs_cons, Fsm.outputs_nil, Fsm.emit, Fsm.next, commsFSM, s1, s2, s3, s4]
    split <;> rfl
  have reached : (commsFSM behind).after h [startByte1, startByte2, msgType, seqNumber] =
      { (h2.push msgType).push seqNumber with
        state := if h.packetLen = 5 then .waitingForCrc else .waitingForData } := by
    simp only [Fsm.after_cons, Fsm.after_nil, Fsm.next, commsFSM, s1, s2, s3, s4]
    split <;> rfl
  refine ⟨_, reached, silent, rfl, by simp [index2], got4, ?_⟩
  intro i four inside
  rw [← kept3 i four inside]
  exact (h2.push msgType).store_kept seqNumber inside (by simp [index2]; omega)

/-- Once a further byte is in, the length byte is among those collected. -/
theorem Receiving.pushed {got : List UInt8} {byte len : UInt8} (now : Receiving h got)
    (low : 4 ≤ got.length) (fits : got.length < 64)
    (lengthByte : (got ++ [byte])[4]? = some len) :
    (h.push byte).received = got ++ [byte] ∧ (h.push byte).packetLen = len := by
  have bytes : (h.push byte).received = got ++ [byte] := by
    rw [h.received_push byte (by rw [now.index]; exact fits), now.bytes]
  refine ⟨bytes, ?_⟩
  have five := (h.push byte).received_packetLen (by simp [now.index]; omega)
  rw [bytes, lengthByte] at five
  exact (Option.some.inj five).symm

/-- One byte of the data phase that is not the last before the checksum. -/
theorem Receiving.more {got : List UInt8} {byte len : UInt8} (now : Receiving h got)
    (low : 4 ≤ got.length) (short : got.length + 2 < len.toNat) (high : len.toNat ≤ 64)
    (lengthByte : (got ++ [byte])[4]? = some len) :
    commsStep behind h byte = (h.push byte, []) ∧ Receiving (h.push byte) (got ++ [byte]) := by
  obtain ⟨bytes, lenEq⟩ := now.pushed low (by omega) lengthByte
  refine ⟨?_, now.state, by simp [now.index], bytes⟩
  rw [step_data now.state (by rw [now.index]; omega), lenEq, now.index,
    if_neg (by omega), if_neg (by omega)]

/-- The last byte before the checksum. -/
theorem Receiving.last {got : List UInt8} {byte len : UInt8} (now : Receiving h got)
    (low : 4 ≤ got.length) (size : got.length + 2 = len.toNat) (high : len.toNat ≤ 64)
    (lengthByte : (got ++ [byte])[4]? = some len) :
    commsStep behind h byte = ({ h.push byte with state := .waitingForCrc }, []) ∧
      (h.push byte).received = got ++ [byte] ∧ (h.push byte).packetLen = len := by
  obtain ⟨bytes, lenEq⟩ := now.pushed low (by omega) lengthByte
  refine ⟨?_, bytes, lenEq⟩
  rw [step_data now.state (by rw [now.index]; omega), lenEq, now.index, if_pos size]

/-- The whole data phase, by induction on what is still to come. -/
theorem after_body {len : UInt8} (high : len.toNat ≤ 64) :
    ∀ (rest : List UInt8) (byte : UInt8) (got : List UInt8) (h : CommsHandler),
    Receiving h got → 4 ≤ got.length → got.length + rest.length + 2 = len.toNat →
    (got ++ byte :: rest)[4]? = some len →
    ∃ h', (commsFSM behind).after h (byte :: rest) = h' ∧
      (commsFSM behind).outputs h (byte :: rest) = [] ∧
      h'.state = .waitingForCrc ∧ h'.packetIdx + 1 = len.toNat ∧
      h'.received = got ++ byte :: rest ∧ h'.packetLen = len := by
  intro rest
  induction rest with
  | nil =>
      intro byte got h now low size lengthByte
      obtain ⟨step, bytes, lenEq⟩ := now.last behind low
        (by simpa using size) high lengthByte
      refine ⟨{ h.push byte with state := .waitingForCrc }, ?_, ?_, rfl, ?_, bytes, lenEq⟩
      · simp [Fsm.next, commsFSM, step]
      · simp [Fsm.emit, commsFSM, step]
      · simp [now.index] at size ⊢
        omega
  | cons next rest ih =>
      intro byte got h now low size lengthByte
      have early : (got ++ [byte])[4]? = some len := by
        rw [← lengthByte]
        rcases Nat.lt_or_ge 4 got.length with inside | edge
        · rw [List.getElem?_append_left inside, List.getElem?_append_left inside]
        · have four : got.length = 4 := by omega
          rw [List.getElem?_append_right (by omega), List.getElem?_append_right (by omega)]
          simp [four]
      obtain ⟨step, later⟩ := now.more behind low
        (by simp at size; omega) high early
      obtain ⟨h', reached, silent, state, index, bytes, lenEq⟩ :=
        ih next (got ++ [byte]) (h.push byte) later (by simp; omega)
          (by simp at size ⊢; omega) (by simpa using lengthByte)
      refine ⟨h', ?_, ?_, state, index, by simpa using bytes, lenEq⟩
      · rw [Fsm.after_cons]
        simpa [Fsm.next, commsFSM, step] using reached
      · rw [Fsm.outputs_cons]
        simpa [Fsm.next, Fsm.emit, commsFSM, step] using silent

/-- Everything before the checksum byte is consumed in silence. -/
theorem after_head_body (idle : h.state = .waitingForStart1) (fresh : h.packetLen ≠ 5)
    (f : Frame) :
    ∃ h', (commsFSM behind).after h (f.head ++ f.body) = h' ∧
      (commsFSM behind).outputs h (f.head ++ f.body) = [] ∧
      h'.state = .waitingForCrc ∧ h'.packetIdx + 1 = f.packetLen.toNat ∧
      h'.received = f.head ++ f.body ∧ h'.packetLen = f.packetLen := by
  obtain ⟨h4, reached4, silent4, state4, index4, got4, -⟩ :=
    after_header behind idle f.msgType f.seqNumber
  change (commsFSM behind).after h f.head = h4 at reached4
  change (commsFSM behind).outputs h f.head = [] at silent4
  have fits := f.fits
  have size := f.packetLen_toNat
  obtain ⟨h', reached, silent, rest⟩ := after_body behind (by omega : f.packetLen.toNat ≤ 64)
    f.payload f.packetLen f.head h4
    ⟨by rw [state4, if_neg fresh], index4, got4⟩ (by simp [Frame.head])
    (by simp [Frame.head]; omega) (by simp [Frame.head])
  refine ⟨h', ?_, ?_, rest⟩
  · rw [Fsm.after_append, reached4, ← reached]
    rfl
  · rw [Fsm.outputs_append, reached4, silent4, List.nil_append, ← silent]
    rfl

variable {behind}

/-- A frame that starts with a left-over length other than five is dispatched by its
last byte. -/
theorem frame_dispatched (behind : CommsHandler → Nat → UInt8)
    (idle : h.state = .waitingForStart1) (fresh : h.packetLen ≠ 5)
    (f : Frame) :
    ∃ (h' h'' : CommsHandler) (p : Packet),
      (commsFSM behind).after h (f.head ++ f.body) = h' ∧
      (commsFSM behind).outputs h (f.head ++ f.body) = [] ∧
      commsStep behind h' f.crc = (h'', [.runPacket p, .sendResponse p]) ∧
      p.bytes = f.bytes ∧ p.packetLen = f.packetLen ∧
      h''.state = .waitingForStart1 ∧ h''.packetLen = f.packetLen := by
  obtain ⟨h', reached, silent, state, index, bytes, lenEq⟩ :=
    after_head_body behind idle fresh f
  have size := f.packetLen_toNat
  have fits := f.fits
  have kept : (h'.store h'.packetIdx f.crc).packetLen = f.packetLen := by
    rw [h'.store_packetLen, if_neg (by omega), lenEq]
  have packetBytes : ((h'.store h'.packetIdx f.crc).packet behind).bytes = f.bytes := by
    rw [packet_bytes_crc (by omega) (by omega) (by rw [lenEq]; exact index), bytes]
    rfl
  have checked : checkPacket ((h'.store h'.packetIdx f.crc).packet behind) = true := by
    have zero : crc8 f.bytes = 0 := f.checksum
    simp [checkPacket, packetBytes, zero]
  refine ⟨h', { h'.store h'.packetIdx f.crc with state := .waitingForStart1 }, _, reached,
    silent, ?_, packetBytes, ?_, rfl, kept⟩
  · rw [step_crc state, if_pos checked]
  · rw [CommsHandler.packet_packetLen, kept]

/-- A frame that starts with a left-over length other than five is delivered. -/
theorem delivered_of_fresh (idle : h.state = .waitingForStart1) (fresh : h.packetLen ≠ 5)
    (f : Frame) : Delivered behind h f.bytes := by
  obtain ⟨h', h'', p, reached, silent, step, bytes, -, between, -⟩ :=
    frame_dispatched behind idle fresh f
  refine ⟨p, bytes, ?_, ?_⟩
  · show (commsFSM behind).trace [] h ((f.head ++ f.body) ++ [f.crc]) = _
    rw [Fsm.trace_append, Fsm.trace_eq_nil _ silent, reached, Fsm.trace_singleton, Fsm.emit,
      show (commsFSM behind).step h' f.crc = _ from step]
    rfl
  · intro calls whole
    rw [runCalls_eq_flatten, whole]
    simp only [runCommsFSM, Frame.bytes, Fsm.after_append, Fsm.outputs_append, reached, silent]
    simp [Fsm.next, Fsm.emit, commsFSM, step, between]

/-! ## A frame after a left-over five -/

/-- Outside the data phase no step touches the length byte. -/
theorem packetLen_kept {start : CommsHandler} {consumed : List UInt8} {byte : UInt8}
    (inv : ParserInv behind start consumed h) (outside : h.state ≠ .waitingForData) :
    (commsStep behind h byte).1.packetLen = h.packetLen := by
  cases inv with
  | idle state =>
      rw [step_start1 state]
      split
      · exact (h.store_packetLen 0 byte).trans (if_neg (by omega))
      · rfl
  | started state =>
      rw [step_start2 state]
      split
      · exact (h.store_packetLen 1 byte).trans (if_neg (by omega))
      · rfl
  | header state index =>
      have kept : (h.push byte).packetLen = h.packetLen :=
        (h.push_packetLen byte).trans (if_neg (by omega))
      rcases index with two | three
      · rw [step_header_two state two]
        exact kept
      · rw [step_header_three state three]
        split <;> exact kept
  | data state => exact absurd state outside
  | crc state low =>
      rw [step_crc state]
      exact (h.store_packetLen h.packetIdx byte).trans (if_neg (by omega))

/-- A length byte of five is only ever seen in the data phase. -/
def FiveOnlyInData (h : CommsHandler) : Prop :=
  h.packetLen = 5 → h.state = .waitingForData

/-- Within the first sixty-two bytes, the parser cannot get from a packet with
length byte five back to a header. -/
theorem fiveOnlyInData_next {start : CommsHandler} {consumed : List UInt8} {byte : UInt8}
    (inv : ParserInv behind start consumed h) (five : FiveOnlyInData h)
    (short : consumed.length < 62) : FiveOnlyInData (commsStep behind h byte).1 := by
  intro len
  by_cases outside : h.state ≠ .waitingForData
  · rw [packetLen_kept inv outside] at len
    exact absurd (five len) outside
  cases inv with
  | data state low high first collected =>
      obtain ⟨earlier, rfl, -⟩ := collected
      have size := h.length_received (by omega)
      simp only [List.length_append, size] at short
      rw [step_data state (by omega), if_neg (c := 63 ≤ _) (by omega)] at len ⊢
      split
      · rename_i last
        rw [if_pos last] at len
        rw [show (h.push byte).packetLen = 5 from len] at last
        simp at last
        omega
      · exact state
  | idle state | started state | header state | crc state => simp [state] at outside

/-- So a short run that starts between packets, with a length byte other than
five, never decides by a left-over five. -/
theorem notStale_of_short {start : CommsHandler} :
    ∀ (xs consumed : List UInt8) (h : CommsHandler),
    (commsFSM behind).after start consumed = h → ParserInv behind start consumed h →
    FiveOnlyInData h → consumed.length + xs.length ≤ 62 →
    (commsFSM behind).EveryStep NotStale h xs := by
  intro xs
  induction xs with
  | nil => intros; trivial
  | cons byte rest ih =>
      intro consumed h reached inv five short
      have fresh : NotStale h byte := by
        rintro ⟨state, -, len⟩
        simpa [state] using five len
      refine ⟨fresh, ih (consumed ++ [byte]) _ ?_ (parserInv_next reached inv fresh)
        (fiveOnlyInData_next inv five (by simp at short; omega)) (by simp at short ⊢; omega)⟩
      rw [Fsm.after_append, reached]
      rfl

/-- A run that is two bytes shorter than a frame cannot dispatch the whole of it. -/
theorem not_dispatched_of_short {start : CommsHandler} {seen rest consumed : List UInt8}
    {p : Packet} {f : Frame} (idle : start.state = .waitingForStart1)
    (len : start.packetLen ≠ 5) (short : rest.length + 2 ≤ f.bytes.length)
    (whole : p.bytes = f.bytes) :
    (consumed, Call.runPacket p) ∉ (commsFSM behind).trace seen start rest := by
  intro member
  have fits := f.fits
  have size := f.length_bytes
  have fresh : (commsFSM behind).EveryStep NotStale start rest :=
    notStale_of_short rest [] start rfl (.idle idle) (fun five => absurd five len)
      (by simp; omega)
  -- what is dispatched is the end of what was consumed, and that is too short
  obtain ⟨cut, byte, post, rfl, -, emitted⟩ := (commsFSM behind).mem_trace member
  have freshCut := (((commsFSM behind).everyStep_append _ _ _ _).mp fresh).1
  have sound := sound_of_parserInv (parserInv_after idle freshCut) emitted
  have bound := sound.suffix.length_le
  rw [whole] at bound
  simp at bound short size
  omega

/-- A frame that starts with a left-over five is not delivered. -/
theorem not_delivered_of_stale (idle : h.state = .waitingForStart1) (five : h.packetLen = 5)
    (f : Frame) : ¬ Delivered behind h f.bytes := by
  rintro ⟨p, whole, traced, -⟩
  obtain ⟨h4, reached4, silent4, state4, index4, -, -⟩ :=
    after_header behind idle f.msgType f.seqNumber
  change (commsFSM behind).after h f.head = h4 at reached4
  change (commsFSM behind).outputs h f.head = [] at silent4
  rw [if_pos five] at state4
  have split : f.bytes = f.head ++ f.packetLen :: (f.payload ++ [f.crc]) := by
    simp [Frame.bytes, Frame.body]
  -- the length byte arrives in `WAITING_FOR_CRC`
  have step : (commsFSM behind).step h4 f.packetLen = _ := step_crc state4
  rw [split, Fsm.trace_append, Fsm.trace_eq_nil _ silent4, reached4, ← split] at traced
  simp only [Fsm.trace, Fsm.emit, Fsm.next, step, List.nil_append] at traced
  by_cases checked :
      checkPacket ((h4.store h4.packetIdx f.packetLen).packet behind) = true
  · -- five bytes pass the check: the frame is dispatched too early
    rw [if_pos checked] at traced
    have early : f.head ++ [f.packetLen] = f.bytes := by
      simpa using congrArg (fun t => t.head?.map Prod.fst) traced
    have size := congrArg List.length early
    simp [Frame.head] at size
  · -- they do not: the rest of the frame is too short to dispatch it
    rw [if_neg checked] at traced
    have len : (h4.store h4.packetIdx f.packetLen).packetLen = f.packetLen := by
      rw [h4.store_packetLen, if_pos index4]
    have short : (f.payload ++ [f.crc]).length + 2 ≤ f.bytes.length := by simp
    rw [List.map_nil, List.nil_append] at traced
    have member : (f.bytes, Call.runPacket p) ∈ (commsFSM behind).trace
        (f.head ++ [f.packetLen])
        { h4.store h4.packetIdx f.packetLen with state := .waitingForStart1 }
        (f.payload ++ [f.crc]) := by
      rw [traced]
      exact List.mem_cons_self
    refine not_dispatched_of_short ?_ ?_ short whole member
    · rfl
    · intro stale
      exact f.packetLen_ne_five (len ▸ stale)

variable (behind)

/-- **Delivery.** Take any handler the code can produce: any buffer contents at
`initCommsHandler` and any bytes since, in any calls. If it is between packets
when a well-formed frame arrives, the frame is delivered if and only if the
length byte left in the buffer is not five. -/
theorem frame_delivered_iff (raw : Vector UInt8 64) (before : List (List UInt8)) (f : Frame)
    (idle : (runCalls behind (.init raw) before).1.state = .waitingForStart1) :
    Delivered behind (runCalls behind (.init raw) before).1 f.bytes ↔
      (runCalls behind (.init raw) before).1.packetLen ≠ 5 :=
  ⟨fun delivered stale => not_delivered_of_stale idle stale f delivered,
    fun fresh => delivered_of_fresh idle fresh f⟩

/-- The shortest request: type zero, no payload. -/
def statusRequest : Frame where
  msgType := 0
  seqNumber := 0
  payload := []
  crc := 0x7B
  fits := by decide
  checksum := by decide +kernel

/-- From a cleared buffer the request is delivered. -/
theorem statusRequest_delivered :
    Delivered (fun _ _ => 0)
      (runCalls (fun _ _ => 0) (.init (Vector.replicate 64 0)) []).1 statusRequest.bytes :=
  (frame_delivered_iff (fun _ _ => 0) (Vector.replicate 64 0) [] statusRequest rfl).mpr
    (by decide +kernel)

/-- After a frame with length byte five has been dropped, it is not. -/
theorem statusRequest_lost :
    (runCalls (fun _ _ => 0) (.init (Vector.replicate 64 0)) [droppedFrame]).1.state =
        .waitingForStart1 ∧
      ¬ Delivered (fun _ _ => 0)
        (runCalls (fun _ _ => 0) (.init (Vector.replicate 64 0)) [droppedFrame]).1
        statusRequest.bytes := by
  have idle : (runCalls (fun _ _ => 0) (.init (Vector.replicate 64 0)) [droppedFrame]).1.state =
      .waitingForStart1 := by decide +kernel
  exact ⟨idle, not_delivered_of_stale idle (by decide +kernel) statusRequest⟩

end OlympusFirmware.Olympus

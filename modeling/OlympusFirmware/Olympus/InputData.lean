import OlympusFirmware.Olympus.Delivery
import OlympusFirmware.Olympus.Dispatch

/-!
# What a command finds in its input

All commands read their arguments from the one `inputBuf`. `runPacket` refreshes as
many bytes of it as the packet has, if that is fewer than the command reads, so the
rest is what earlier packets left; and for a packet shorter than its own header the
difference wraps, so that bytes behind the packet are copied.

What the callback finds is compared over two histories after which the same packet is
accepted. It is the same for all of them if and only if the packet brings at least
what the command reads.
-/

namespace OlympusFirmware.Olympus

open OlympusFirmware.Lib

/-- The five bytes of `header`. -/
def Packet.header (p : Packet) : List UInt8 := p.memory.toList.take packetHeaderSize

/-- The same packet: the same header, and the same bytes as far as its length goes. -/
def Packet.Same (p q : Packet) : Prop := p.header = q.header ∧ p.bytes = q.bytes

section Histories

variable (behind : CommsHandler → Nat → UInt8) (wild : Packet → Server → Server)

/-- After `history`, the parser accepts the packet. -/
def Accepts (raw : Vector UInt8 64) (history : List UInt8) (p : Packet) : Prop :=
  ∃ earlier byte, history = earlier ++ [byte] ∧
    Dispatches behind ((interfaceFSM behind wild).after (.init raw) earlier) byte p

/-- After `history`, the parser accepts the packet and its callback finds `inputData`. -/
def Finds (raw : Vector UInt8 64) (history : List UInt8) (p : Packet) (inputData : Mem UInt8) :
    Prop :=
  ∃ earlier byte callback, history = earlier ++ [byte] ∧
    Dispatches behind ((interfaceFSM behind wild).after (.init raw) earlier) byte p ∧
    Action.callback callback inputData ∈
      (interfaceFSM behind wild).emit ((interfaceFSM behind wild).after (.init raw) earlier) byte

end Histories

/-! ## The bytes of a packet -/

namespace Packet

theorem header_eq (p : Packet) :
    p.header = [p.memory[0], p.memory[1], p.msgType, p.seqNumber, p.packetLen] := by
  apply List.ext_getElem
  · simp [header, packetHeaderSize]
  · intro i left right
    simp only [List.length_cons, List.length_nil] at right
    have inside : i = 0 ∨ i = 1 ∨ i = 2 ∨ i = 3 ∨ i = 4 := by omega
    rcases inside with rfl | rfl | rfl | rfl | rfl <;>
      simp [header, msgType, seqNumber, packetLen]

@[simp] theorem length_data (p : Packet) : p.data.length = 251 := by
  simp [data, packetHeaderSize]

/-- A packet that has its header is the header and the data behind it. -/
theorem bytes_eq (p : Packet) (whole : 5 ≤ p.packetLen.toNat) :
    p.bytes = p.header ++ p.data.take (p.packetLen.toNat - 5) := by
  obtain ⟨k, len⟩ : ∃ k, p.packetLen.toNat = 5 + k := ⟨p.packetLen.toNat - 5, by omega⟩
  rw [bytes, len, List.take_add, Nat.add_sub_cancel_left]
  rfl

/-- A shorter one is a part of the header. -/
theorem bytes_eq_of_short (p : Packet) (short : p.packetLen.toNat ≤ 5) :
    p.bytes = p.header.take p.packetLen.toNat := by
  rw [bytes, header, List.take_take, packetHeaderSize, Nat.min_eq_left short]

theorem Same.packetLen {p q : Packet} (same : p.Same q) : p.packetLen = q.packetLen := by
  have header := same.1
  rw [header_eq, header_eq] at header
  simp only [List.cons.injEq] at header
  exact header.2.2.2.2.1

theorem Same.entry {p q : Packet} (same : p.Same q) : p.entry = q.entry := by
  have header := same.1
  rw [header_eq, header_eq] at header
  simp only [List.cons.injEq] at header
  rw [Packet.entry, Packet.packetType, header.2.2.1]
  rfl

/-- The difference, for a packet with a checksum. -/
theorem dataLen_toNat (p : Packet) (whole : 6 ≤ p.packetLen.toNat) :
    p.dataLen.toNat = p.packetLen.toNat - 6 := by
  have small := p.packetLen.toNat_lt
  simp only [dataLen, UInt8.toNat_sub, UInt8.reduceToNat]
  omega

/-- The difference wraps, for a packet without. -/
theorem dataLen_wraps (p : Packet) (short : p.packetLen.toNat < 6) : 250 ≤ p.dataLen.toNat := by
  simp only [dataLen, UInt8.toNat_sub, UInt8.reduceToNat]
  omega

end Packet

/-! ## What is copied -/

section Copy

variable {r : PacketResponse} {p : Packet} {inputBuf : Mem UInt8}

/-- The commands read at most four bytes. -/
theorem inputDataLen_le (entry : p.entry = some r) : r.inputDataLen ≤ 4 :=
  Packet.entry_all (P := fun r => r.inputDataLen ≤ 4) (by decide) entry

/-- Where enough is copied, the command finds the data of the view. -/
theorem load_copyInput (small : r.inputDataLen ≤ 4) (enough : r.inputDataLen ≤ p.dataLen.toNat) :
    (copyInput r p inputBuf).load 0 r.inputDataLen = p.data.take r.inputDataLen := by
  have copied : bytesToCopy r p = r.inputDataLen := by
    rw [bytesToCopy, if_neg (by omega)]
  have size : (p.data.take r.inputDataLen).length = r.inputDataLen := by
    rw [List.length_take, Packet.length_data]
    omega
  unfold copyInput
  split
  · rw [copied]
    have back := inputBuf.load_store_self 0 (p.data.take r.inputDataLen)
    rwa [size] at back
  · rename_i none
    rw [show r.inputDataLen = 0 by omega]
    rfl

/-- A packet that brings all the command reads shows it its payload. -/
theorem load_copyInput_bytes (entry : p.entry = some r)
    (brings : r.inputDataLen = 0 ∨ r.inputDataLen + 6 ≤ p.packetLen.toNat) :
    (copyInput r p inputBuf).load 0 r.inputDataLen = (p.bytes.drop 5).take r.inputDataLen := by
  rcases brings with none | all
  · rw [none]
    rfl
  have small := inputDataLen_le entry
  have length : p.header.length = 5 := by
    rw [p.header_eq]
    rfl
  rw [load_copyInput small (by rw [p.dataLen_toNat (by omega)]; omega), p.bytes_eq (by omega),
    List.drop_left' length, List.take_take, Nat.min_eq_left (by omega)]

/-- Where it is not, the byte behind what is copied is the old one. -/
theorem copyInput_behind (inputBuf : Mem UInt8) (short : p.dataLen.toNat < r.inputDataLen) :
    copyInput r p inputBuf p.dataLen.toNat = inputBuf p.dataLen.toNat := by
  unfold copyInput
  split
  · rw [bytesToCopy, if_pos short]
    refine Mem.store_outside (.inr ?_)
    rw [List.length_take]
    omega
  · rfl

end Copy

/-! ## Histories that can precede a packet -/

section Before

variable (behind : CommsHandler → Nat → UInt8) {h : CommsHandler}

/-- Five bytes of a header with the given length byte, then what fills the buffer up. -/
def shortFrame (msgType seqNumber packetLen fill : UInt8) : List UInt8 :=
  [startByte1, startByte2, msgType, seqNumber] ++ packetLen :: List.replicate 58 fill

/-- Storing the next one. -/
theorem filled_push {fill : UInt8}
    (filled : ∀ i, 5 ≤ i → i < h.packetIdx → (inside : i < 64) → h.packetBuffer[i] = fill) :
    ∀ i, 5 ≤ i → i < h.packetIdx + 1 → (inside : i < 64) →
      (h.push fill).packetBuffer[i] = fill := by
  intro i low below inside
  show (h.store h.packetIdx fill).packetBuffer[i] = fill
  rw [h.store_getElem fill inside]
  split
  · rfl
  · exact filled i low (by omega) inside

/-- In the data phase of a packet shorter than its header, the buffer fills up. -/
theorem after_overrun (fill : UInt8) (n : Nat) :
    ∀ h : CommsHandler, h.state = .waitingForData → 5 ≤ h.packetIdx → h.packetIdx + n = 62 →
    h.packetLen.toNat ≤ 5 →
    (∀ i, 5 ≤ i → i < h.packetIdx → (inside : i < 64) → h.packetBuffer[i] = fill) →
    ∃ h', (commsFSM behind).after h (List.replicate (n + 1) fill) = h' ∧
      (commsFSM behind).outputs h (List.replicate (n + 1) fill) = [] ∧
      h'.state = .waitingForStart1 ∧ h'.packetLen = h.packetLen ∧
      ∀ i, 5 ≤ i → (inside : i < 63) → h'.packetBuffer[i] = fill := by
  induction n with
  | zero =>
      intro h state low full short filled
      have kept : (h.push fill).packetLen = h.packetLen := by
        rw [h.push_packetLen, if_neg (by omega)]
      have step : (commsFSM behind).step h fill =
          ({ h.push fill with state := .waitingForStart1 }, []) := by
        show commsStep behind h fill = _
        rw [step_data state (by omega), kept, if_neg (by omega), if_pos (by omega)]
      refine ⟨{ h.push fill with state := .waitingForStart1 }, ?_, ?_, rfl, kept, ?_⟩
      · simp [Fsm.next, step]
      · simp [Fsm.emit, step]
      · intro i five inside
        exact filled_push filled i five (by omega) (by omega)
  | succ n ih =>
      intro h state low full short filled
      have kept : (h.push fill).packetLen = h.packetLen := by
        rw [h.push_packetLen, if_neg (by omega)]
      have step : (commsFSM behind).step h fill = (h.push fill, []) := by
        show commsStep behind h fill = _
        rw [step_data state (by omega), kept, if_neg (by omega), if_neg (by omega)]
      obtain ⟨h', reached, silent, idle, len, all⟩ := ih (h.push fill) state
        (by simp; omega) (by simp; omega) (by rw [kept]; exact short) (filled_push filled)
      refine ⟨h', ?_, ?_, idle, len.trans kept, all⟩
      · rw [List.replicate_succ, Fsm.after_cons, Fsm.next, step, reached]
      · rw [List.replicate_succ, Fsm.outputs_cons, Fsm.emit, Fsm.next, step, silent]
        rfl

/-- A short frame is dropped when the buffer is full, and stays in it. -/
theorem after_shortFrame (idle : h.state = .waitingForStart1) (fresh : h.packetLen ≠ 5)
    (msgType seqNumber packetLen fill : UInt8) (short : packetLen.toNat ≤ 5) :
    ∃ h', (commsFSM behind).after h (shortFrame msgType seqNumber packetLen fill) = h' ∧
      (commsFSM behind).outputs h (shortFrame msgType seqNumber packetLen fill) = [] ∧
      h'.state = .waitingForStart1 ∧ h'.packetLen = packetLen ∧
      ∀ i, 5 ≤ i → (inside : i < 63) → h'.packetBuffer[i] = fill := by
  obtain ⟨h4, reached4, silent4, state4, index4, -, -⟩ :=
    after_header behind idle msgType seqNumber
  rw [if_neg fresh] at state4
  have len : (h4.push packetLen).packetLen = packetLen := by
    rw [h4.push_packetLen, if_pos index4]
  have step : (commsFSM behind).step h4 packetLen = (h4.push packetLen, []) := by
    show commsStep behind h4 packetLen = _
    rw [step_data state4 (by omega), len, index4, if_neg (by omega), if_neg (by omega)]
  obtain ⟨h', reached, silent, idle', len', filled⟩ := after_overrun behind fill 57
    (h4.push packetLen) state4 (by simp [index4]) (by simp [index4]) (by rw [len]; exact short)
    (by
      intro i five below
      rw [CommsHandler.push_packetIdx, index4] at below
      omega)
  refine ⟨h', ?_, ?_, idle', len'.trans len, filled⟩
  · rw [shortFrame, Fsm.after_append, reached4, Fsm.after_cons, Fsm.next, step, reached]
  · rw [shortFrame, Fsm.outputs_append, reached4, silent4, Fsm.outputs_cons, Fsm.emit, Fsm.next,
      step, silent]
    rfl

/-- Between packets, zeros change nothing. -/
theorem after_zeros (n : Nat) (idle : h.state = .waitingForStart1) :
    ∃ h', (commsFSM behind).after h (List.replicate n 0) = h' ∧
      (commsFSM behind).outputs h (List.replicate n 0) = [] ∧
      h'.state = .waitingForStart1 ∧ h'.packetLen = h.packetLen := by
  induction n generalizing h with
  | zero => exact ⟨h, rfl, rfl, idle, rfl⟩
  | succ n ih =>
      have step : (commsFSM behind).step h 0 = ({ h with packetIdx := 0 }, []) := by
        show commsStep behind h 0 = _
        rw [step_start1 idle, if_neg (by decide)]
      obtain ⟨h', reached, silent, idle', len⟩ := ih (h := { h with packetIdx := 0 }) idle
      refine ⟨h', ?_, ?_, idle', len⟩
      · rw [List.replicate_succ, Fsm.after_cons, Fsm.next, step, reached]
      · rw [List.replicate_succ, Fsm.outputs_cons, Fsm.emit, Fsm.next, step, silent]
        rfl

/-- The view when the length byte is taken for a checksum. -/
theorem header_of_stale {msgType seqNumber : UInt8} (packetLen : UInt8)
    (index : h.packetIdx = 4)
    (received : h.received = [startByte1, startByte2, msgType, seqNumber]) :
    ((h.store h.packetIdx packetLen).packet behind).header =
      [startByte1, startByte2, msgType, seqNumber, packetLen] := by
  have stored := h.take_store packetLen (i := 4) (by omega)
  rw [CommsHandler.received, index] at received
  rw [received] at stored
  rw [Packet.header, CommsHandler.packet_take _ _ (by decide), index]
  exact stored

/-- Frames before which nothing is known can be followed by a short frame with length
byte one: then nothing is dispatched, the parser is between packets and the length
left is one. -/
theorem after_clear (idle : h.state = .waitingForStart1) :
    ∃ h', (commsFSM behind).after h (shortFrame 0 0 1 0) = h' ∧
      (commsFSM behind).outputs h (shortFrame 0 0 1 0) = [] ∧
      h'.state = .waitingForStart1 ∧ h'.packetLen = 1 := by
  by_cases fresh : h.packetLen ≠ 5
  · obtain ⟨h', reached, silent, idle', len, -⟩ :=
      after_shortFrame behind idle fresh 0 0 1 0 (by decide)
    exact ⟨h', reached, silent, idle', len⟩
  -- a left-over five: the length byte one is taken for a checksum, which it is not
  obtain ⟨h4, reached4, silent4, state4, index4, received4, -⟩ := after_header behind idle 0 0
  rw [if_pos (not_not.mp fresh)] at state4
  have header := header_of_stale behind 1 index4 received4
  have len : ((h4.store h4.packetIdx 1).packet behind).packetLen = 1 := by
    rw [CommsHandler.packet_packetLen, h4.store_packetLen, if_pos index4]
  have rejected : ¬ checkPacket ((h4.store h4.packetIdx 1).packet behind) = true := by
    rw [checkPacket, Packet.bytes_eq_of_short _ (by rw [len]; decide), len, header]
    decide
  have step : (commsFSM behind).step h4 1 =
      ({ h4.store h4.packetIdx 1 with state := .waitingForStart1 }, []) := by
    show commsStep behind h4 1 = _
    rw [step_crc state4, if_neg rejected]
  obtain ⟨h', reached, silent, idle', len'⟩ := after_zeros behind 58
    (h := { h4.store h4.packetIdx 1 with state := .waitingForStart1 }) rfl
  refine ⟨h', ?_, ?_, idle', ?_⟩
  · rw [shortFrame, Fsm.after_append, reached4, Fsm.after_cons, Fsm.next, step, reached]
  · rw [shortFrame, Fsm.outputs_append, reached4, silent4, Fsm.outputs_cons, Fsm.emit, Fsm.next,
      step, silent]
    rfl
  · rw [len']
    exact (h4.store_packetLen h4.packetIdx 1).trans (if_pos index4)

end Before

section Differ

variable (behind : CommsHandler → Nat → UInt8) (wild : Packet → Server → Server)

/-- A frame from between packets, with what the two functions then do. -/
theorem interface_frame {o : Interface} (running : o.server.running = true)
    (idle : o.handler.state = .waitingForStart1) (fresh : o.handler.packetLen ≠ 5) (f : Frame) :
    ∃ q : Packet, q.bytes = f.bytes ∧ q.packetLen = f.packetLen ∧
      Dispatches behind ((interfaceFSM behind wild).after o (f.head ++ f.body)) f.crc q ∧
      ((interfaceFSM behind wild).after o (f.head ++ f.body)).server = o.server ∧
      ((interfaceFSM behind wild).after o f.bytes).server =
        (serverFSM wild).after o.server [.runPacket q, .sendResponse q] ∧
      ((interfaceFSM behind wild).after o f.bytes).handler.state = .waitingForStart1 ∧
      ((interfaceFSM behind wild).after o f.bytes).handler.packetLen ≠ 5 := by
  obtain ⟨h', h'', q, reached, silent, step, bytes, len, idle', len'⟩ :=
    frame_dispatched behind idle fresh f
  have before : (interfaceFSM behind wild).after o (f.head ++ f.body) = ⟨h', o.server⟩ := by
    rw [interface_silent running silent, reached]
  have after : (interfaceFSM behind wild).after o f.bytes =
      ⟨h'', (serverFSM wild).after o.server [.runPacket q, .sendResponse q]⟩ := by
    rw [Frame.bytes, Fsm.after_append, before, Fsm.after_cons, Fsm.after_nil]
    show (interfaceStep behind wild ⟨h', o.server⟩ f.crc).1 = _
    simp only [interfaceStep, running, if_true, step]
  refine ⟨q, bytes, len, ?_, by rw [before], by rw [after], by rw [after]; exact idle', ?_⟩
  · rw [before]
    refine ⟨running, ?_⟩
    rw [step]
    exact List.mem_cons_self
  · rw [after]
    show h''.packetLen ≠ 5
    rw [len']
    exact f.packetLen_ne_five

/-- Packets with a header are the same if their bytes are. -/
theorem Packet.same_of_bytes {p q : Packet} (len : p.packetLen = q.packetLen)
    (whole : 5 ≤ p.packetLen.toNat) (bytes : p.bytes = q.bytes) : p.Same q := by
  refine ⟨?_, bytes⟩
  have both := bytes
  rw [p.bytes_eq whole, q.bytes_eq (len ▸ whole)] at both
  exact (List.append_inj both (by rw [p.header_eq, q.header_eq]; rfl)).1

variable {behind wild} in
/-- What the parser has accepted starts with the start bytes and has a zero checksum. -/
theorem Accepts.header {raw : Vector UInt8 64} {history : List UInt8} {p : Packet}
    (accepts : Accepts behind wild raw history p) :
    p.header = [startByte1, startByte2, p.msgType, p.seqNumber, p.packetLen] ∧
      crc8 p.bytes = 0 := by
  obtain ⟨earlier, byte, -, dispatches⟩ := accepts
  obtain ⟨state, view, checked, -⟩ := dispatches.view
  have inv : BufferInv ((interfaceFSM behind wild).after (.init raw) earlier).handler :=
    (interfaceFSM behind wild).invariant_after (I := fun o => BufferInv o.handler)
      (fun o data inv => interface_bufferInv inv data) (.idle rfl) earlier
  generalize ((interfaceFSM behind wild).after (.init raw) earlier).handler = h at *
  refine ⟨?_, by simpa [checkPacket] using checked⟩
  cases inv with
  | crc _ index first second =>
      have zero : p.memory[0] = startByte1 := by
        rw [← first, ← h.store_kept byte (i := h.packetIdx) (by omega) (by omega), view]
        simp [CommsHandler.packet, Vector.get]
      have one : p.memory[1] = startByte2 := by
        rw [← second, ← h.store_kept byte (i := h.packetIdx) (by omega) (by omega), view]
        simp [CommsHandler.packet, Vector.get]
      rw [p.header_eq, zero, one]
  | idle other | started other | header other | data other => simp [state] at other

/-- A packet with a checksum, as a frame. -/
theorem exists_frame {p : Packet}
    (header : p.header = [startByte1, startByte2, p.msgType, p.seqNumber, p.packetLen])
    (crc : crc8 p.bytes = 0) (low : 6 ≤ p.packetLen.toNat) (high : p.packetLen.toNat ≤ 64) :
    ∃ f : Frame, f.bytes = p.bytes ∧ f.packetLen = p.packetLen := by
  have inside : p.packetLen.toNat - 6 < p.data.length := by
    rw [p.length_data]
    omega
  have size : (p.data.take (p.packetLen.toNat - 6)).length + 6 = p.packetLen.toNat := by
    rw [List.length_take, p.length_data]
    omega
  have len : UInt8.ofNat ((p.data.take (p.packetLen.toNat - 6)).length + 6) = p.packetLen := by
    rw [size, UInt8.ofNat_toNat]
  have bytes : [startByte1, startByte2, p.msgType, p.seqNumber] ++
      (UInt8.ofNat ((p.data.take (p.packetLen.toNat - 6)).length + 6) ::
        p.data.take (p.packetLen.toNat - 6)) ++ [p.data[p.packetLen.toNat - 6]] = p.bytes := by
    rw [p.bytes_eq (by omega), header, len,
      show p.packetLen.toNat - 5 = p.packetLen.toNat - 6 + 1 by omega,
      ← List.take_concat_get' _ _ inside]
    simp
  exact ⟨⟨p.msgType, p.seqNumber, p.data.take (p.packetLen.toNat - 6),
    p.data[p.packetLen.toNat - 6], by omega, by rw [bytes, crc]⟩, bytes, len⟩

/-- A reset command with a wrong key, which fills the input with ones. -/
def wrongKey : Frame where
  msgType := 0x22
  seqNumber := 0
  payload := List.replicate 4 0xFF
  crc := 0xE8
  fits := by decide
  checksum := by decide +kernel

/-- After it, the first four bytes of the input are ones and the program runs. -/
theorem server_wrongKey {q : Packet} (bytes : q.bytes = wrongKey.bytes)
    (len : q.packetLen = wrongKey.packetLen) {s : Server} (running : s.running = true) :
    ((serverFSM wild).after s [.runPacket q, .sendResponse q]).running = true ∧
      ((serverFSM wild).after s [.runPacket q, .sendResponse q]).inputBuf.load 0 4 =
        List.replicate 4 0xFF := by
  have ten : q.packetLen.toNat = 10 := by
    rw [len]
    decide
  have split := q.bytes_eq (by omega)
  rw [bytes, ten] at split
  have parts : q.header = [0xF0, 0x5A, 0x22, 0x00, 0x0A] ∧
      q.data.take 5 = [0xFF, 0xFF, 0xFF, 0xFF, 0xE8] := by
    have sizes : q.header.length = 5 := by rw [q.header_eq]; rfl
    have whole : wrongKey.bytes =
        [0xF0, 0x5A, 0x22, 0x00, 0x0A] ++ [0xFF, 0xFF, 0xFF, 0xFF, 0xE8] := by decide
    rw [whole] at split
    obtain ⟨head, tail⟩ := List.append_inj split (by rw [sizes]; rfl)
    exact ⟨head.symm, tail.symm⟩
  have type : q.msgType = 0x22 := by
    have header := parts.1
    rw [q.header_eq] at header
    simp only [List.cons.injEq] at header
    exact header.2.2.1
  obtain ⟨r, entry, reads, callback⟩ :
      ∃ r, q.entry = some r ∧ r.inputDataLen = 4 ∧ r.callback = some .resetBoard := by
    refine ⟨response[17], ?_, rfl, rfl⟩
    rw [Packet.entry, Packet.packetType, type]
    rfl
  have loaded : (copyInput r q s.inputBuf).load 0 4 = List.replicate 4 0xFF := by
    have taken := congrArg (List.take 4) parts.2
    rw [List.take_take] at taken
    rw [← reads, load_copyInput (by omega) (by rw [q.dataLen_toNat (by omega), ten, reads]), reads]
    exact taken
  have returns : Callback.returns (copyInput r q s.inputBuf) .resetBoard = true := by
    simp only [Callback.returns, loaded]
    decide
  have run : (serverFSM wild).next s (.runPacket q) = ⟨copyInput r q s.inputBuf, true⟩ := by
    show (serverStep wild s (.runPacket q)).1 = _
    simp only [serverStep, running, if_true, runPacket, entry, runEntry, callback, returns]
  have send : (serverFSM wild).after s [.runPacket q, .sendResponse q] =
      ⟨copyInput r q s.inputBuf, true⟩ := by
    rw [Fsm.after_cons, run]
    rfl
  rw [send]
  exact ⟨rfl, loaded⟩

variable {behind wild} in
/-- A packet that brings all the command reads shows it the packet's data. -/
theorem Finds.load {raw : Vector UInt8 64} {history : List UInt8} {p q : Packet}
    {r : PacketResponse} {inputData : Mem UInt8}
    (finds : Finds behind wild raw history q inputData) (entry : p.entry = some r)
    (same : q.Same p) (brings : r.inputDataLen = 0 ∨ r.inputDataLen + 6 ≤ p.packetLen.toNat) :
    inputData.load 0 r.inputDataLen = (p.bytes.drop 5).take r.inputDataLen := by
  obtain ⟨earlier, byte, callback, -, dispatches, called⟩ := finds
  rw [dispatches.found (same.entry.trans entry)] at called
  rw [called.2, ← same.2]
  rw [← same.packetLen] at brings
  exact load_copyInput_bytes (same.entry.trans entry) brings

/-- The commands that read input have a callback. -/
theorem callback_of_input {p : Packet} {r : PacketResponse} (entry : p.entry = some r)
    (reads : 0 < r.inputDataLen) : ∃ callback, r.callback = some callback := by
  have known := Packet.entry_all (P := fun r => 0 < r.inputDataLen → r.callback ≠ none)
    (by decide) entry
  exact Option.ne_none_iff_exists'.mp (known reads)

/-- The command finds what the copy of its packet leaves in the buffer. -/
theorem finds_frame {raw : Vector UInt8 64} {before : List UInt8} {o : Interface}
    (reached : (interfaceFSM behind wild).after (.init raw) before = o)
    (running : o.server.running = true) (idle : o.handler.state = .waitingForStart1)
    (fresh : o.handler.packetLen ≠ 5) {f : Frame} {p : Packet} {r : PacketResponse}
    (bytes : f.bytes = p.bytes) (len : f.packetLen = p.packetLen) (entry : p.entry = some r)
    (reads : 0 < r.inputDataLen) :
    ∃ q, q.Same p ∧
      Finds behind wild raw (before ++ f.bytes) q (copyInput r q o.server.inputBuf) := by
  obtain ⟨q, same, len', dispatches, server, -, -, -⟩ :=
    interface_frame behind wild running idle fresh f
  have equal : q.Same p := by
    refine Packet.same_of_bytes (len'.trans len) ?_ (same.trans bytes)
    rw [len', f.packetLen_toNat]
    omega
  obtain ⟨callback, known⟩ := callback_of_input entry reads
  have split : before ++ f.bytes = before ++ (f.head ++ f.body) ++ [f.crc] := by
    simp [Frame.bytes]
  rw [← reached, ← Fsm.after_append] at dispatches server
  refine ⟨q, equal, before ++ (f.head ++ f.body), f.crc, callback, split, dispatches, ?_⟩
  rw [dispatches.found (equal.entry.trans entry), server, reached]
  exact ⟨known, rfl⟩

/-- From any memory, the interface can be brought between packets. -/
theorem interface_clear (raw : Vector UInt8 64) :
    ∃ h, (interfaceFSM behind wild).after (.init raw) (shortFrame 0 0 1 0) = ⟨h, .reset⟩ ∧
      h.state = .waitingForStart1 ∧ h.packetLen ≠ 5 := by
  obtain ⟨h, reached, silent, idle, len⟩ := after_clear behind (h := .init raw) rfl
  refine ⟨h, ?_, idle, by rw [len]; decide⟩
  rw [interface_silent (o := .init raw) rfl silent]
  show (⟨(commsFSM behind).after (.init raw) _, _⟩ : Interface) = _
  rw [reached]
  rfl

/-- A packet with fewer bytes than the command reads: the rest is zero after reset and
one after a wrong key. -/
theorem differ_of_whole (raw raw' : Vector UInt8 64) {p : Packet} {r : PacketResponse}
    (header : p.header = [startByte1, startByte2, p.msgType, p.seqNumber, p.packetLen])
    (crc : crc8 p.bytes = 0) (entry : p.entry = some r) (low : 6 ≤ p.packetLen.toNat)
    (few : p.packetLen.toNat < r.inputDataLen + 6) :
    ∃ history history' q q' data data', q.Same p ∧ q'.Same p ∧
      Finds behind wild raw history q data ∧ Finds behind wild raw' history' q' data' ∧
      data.load 0 r.inputDataLen ≠ data'.load 0 r.inputDataLen := by
  have small := inputDataLen_le entry
  obtain ⟨f, bytes, len⟩ := exists_frame header crc low (by omega)
  -- after reset
  obtain ⟨h, reached, idle, fresh⟩ := interface_clear behind wild raw
  obtain ⟨q, same, finds⟩ := finds_frame behind wild reached rfl idle fresh bytes len entry
    (by omega)
  -- after a wrong key
  obtain ⟨h', reached', idle', fresh'⟩ := interface_clear behind wild raw'
  obtain ⟨key, keyBytes, keyLen, -, -, server, idle'', fresh''⟩ :=
    interface_frame behind wild (o := ⟨h', .reset⟩) rfl idle' fresh' wrongKey
  obtain ⟨running, ones⟩ := server_wrongKey wild keyBytes keyLen (s := .reset) rfl
  rw [← show _ = (serverFSM wild).after .reset _ from server] at running ones
  rw [← reached', ← Fsm.after_append] at running ones idle'' fresh''
  obtain ⟨q', same', finds'⟩ := finds_frame behind wild rfl running idle'' fresh'' bytes len entry
    (by omega)
  refine ⟨_, _, q, q', _, _, same, same', finds, finds', ?_⟩
  intro equal
  -- the byte behind the packet's last one
  have position : q.dataLen.toNat = p.packetLen.toNat - 6 := by
    rw [q.dataLen_toNat (by rw [same.packetLen]; omega), same.packetLen]
  have position' : q'.dataLen.toNat = p.packetLen.toNat - 6 := by
    rw [q'.dataLen_toNat (by rw [same'.packetLen]; omega), same'.packetLen]
  have cell := Mem.eq_of_load_eq equal (i := p.packetLen.toNat - 6) (by omega) (by omega)
  have zero := copyInput_behind (r := r) (p := q) Server.reset.inputBuf (by omega)
  have one := copyInput_behind (r := r) (p := q') ((interfaceFSM behind wild).after (.init raw')
    (shortFrame 0 0 1 0 ++ wrongKey.bytes)).server.inputBuf (by omega)
  have filled := Mem.eq_of_load_eq (m := fun _ => 0xFF) (i := p.packetLen.toNat - 6)
    (ones.trans rfl) (by omega) (by omega)
  rw [position] at zero
  rw [position'] at one
  rw [zero, one, filled] at cell
  exact absurd (show (0 : UInt8) = 0xFF from cell) (by decide)

/-- A packet shorter than its header: the command finds what an earlier packet left
behind it. -/
theorem finds_stale (raw : Vector UInt8 64) {p : Packet} {r : PacketResponse}
    (header : p.header = [startByte1, startByte2, p.msgType, p.seqNumber, p.packetLen])
    (crc : crc8 p.bytes = 0) (entry : p.entry = some r) (short : p.packetLen.toNat < 6)
    (reads : 0 < r.inputDataLen) (fill : UInt8) :
    ∃ history q data, q.Same p ∧ Finds behind wild raw history q data ∧
      data.load 0 r.inputDataLen = List.replicate r.inputDataLen fill := by
  have small := inputDataLen_le entry
  obtain ⟨h₁, reached₁, idle₁, fresh₁⟩ := interface_clear behind wild raw
  obtain ⟨h₂, reached₂, silent₂, idle₂, len₂, filled₂⟩ :=
    after_shortFrame behind idle₁ fresh₁ 0 0 5 fill (by decide)
  obtain ⟨h₃, reached₃, silent₃, state₃, index₃, received₃, kept₃⟩ :=
    after_header behind idle₂ p.msgType p.seqNumber
  rw [if_pos len₂] at state₃
  have reached : (interfaceFSM behind wild).after (.init raw) (shortFrame 0 0 1 0 ++
      shortFrame 0 0 5 fill ++ [startByte1, startByte2, p.msgType, p.seqNumber]) =
      ⟨h₃, .reset⟩ := by
    rw [Fsm.after_append, Fsm.after_append, reached₁,
      interface_silent (o := ⟨h₁, .reset⟩) rfl silent₂, reached₂,
      interface_silent (o := ⟨h₂, .reset⟩) rfl silent₃, reached₃]
  have same : ((h₃.store h₃.packetIdx p.packetLen).packet behind).header = p.header :=
    (header_of_stale behind p.packetLen index₃ received₃).trans header.symm
  have len : ((h₃.store h₃.packetIdx p.packetLen).packet behind).packetLen = p.packetLen := by
    rw [CommsHandler.packet_packetLen, h₃.store_packetLen, if_pos index₃]
  have data : ∀ i (inside : i < 4),
      ((h₃.store h₃.packetIdx p.packetLen).packet behind).memory[5 + i] = fill := by
    intro i inside
    have cell : (h₃.store h₃.packetIdx p.packetLen).packetBuffer[5 + i] = fill := by
      rw [h₃.store_kept _ (by omega) (by omega), kept₃ _ (by omega) (by omega)]
      exact filled₂ _ (by omega) (by omega)
    rw [← cell]
    simp [CommsHandler.packet, Vector.get, show 5 + i < 64 by omega]
  generalize view : (h₃.store h₃.packetIdx p.packetLen).packet behind = q at same len data
  have bytes : q.bytes = p.bytes := by
    rw [q.bytes_eq_of_short (by rw [len]; omega), p.bytes_eq_of_short (by omega), same, len]
  have equal : q.Same p := ⟨same, bytes⟩
  have checked : checkPacket q = true := by simp [checkPacket, bytes, crc]
  have dispatches : Dispatches behind ⟨h₃, .reset⟩ p.packetLen q :=
    dispatches_of_checked rfl state₃ view checked
  obtain ⟨callback, known⟩ := callback_of_input entry reads
  refine ⟨_, q, copyInput r q Server.reset.inputBuf, equal,
    ⟨_, p.packetLen, callback, rfl, by rw [reached]; exact dispatches, ?_⟩, ?_⟩
  · rw [reached, dispatches.found (equal.entry.trans entry)]
    exact ⟨known, rfl⟩
  · have wraps := q.dataLen_wraps (by rw [len]; exact short)
    rw [load_copyInput small (by omega)]
    apply List.ext_getElem
    · simp
      omega
    · intro i left right
      have inside : i < 4 := by
        simp at right
        omega
      simp [Packet.data, packetHeaderSize, data i inside]

/-- **What a command finds.** Let a packet be accepted whose type is inside the table.
All histories after which it is accepted show its callback the same input if and only
if the command reads none, or the packet brings all of it. -/
theorem input_determined_iff (raw raw' : Vector UInt8 64) {p : Packet} {r : PacketResponse}
    (entry : p.entry = some r)
    (accepted : ∃ raw₀ history, Accepts behind wild raw₀ history p) :
    (∀ history history' q q' data data', q.Same p → q'.Same p →
      Finds behind wild raw history q data → Finds behind wild raw' history' q' data' →
      data.load 0 r.inputDataLen = data'.load 0 r.inputDataLen) ↔
    (r.inputDataLen = 0 ∨ r.inputDataLen + 6 ≤ p.packetLen.toNat) := by
  constructor
  · intro determined
    by_contra needs
    obtain ⟨raw₀, history, accepts⟩ := accepted
    obtain ⟨header, crc⟩ := accepts.header
    rcases Nat.lt_or_ge p.packetLen.toNat 6 with short | whole
    · obtain ⟨history, q, data, same, finds, zeros⟩ :=
        finds_stale behind wild raw header crc entry short (by omega) 0
      obtain ⟨history', q', data', same', finds', ones⟩ :=
        finds_stale behind wild raw' header crc entry short (by omega) 0xFF
      have equal := determined _ _ _ _ _ _ same same' finds finds'
      rw [zeros, ones, List.replicate_inj] at equal
      rcases equal.2 with none | differ
      · omega
      · exact absurd differ (by decide)
    · obtain ⟨history, history', q, q', data, data', same, same', finds, finds', differ⟩ :=
        differ_of_whole behind wild raw raw' header crc entry whole (by omega)
      exact differ (determined _ _ _ _ _ _ same same' finds finds')
  · intro brings history history' q q' data data' same same' finds finds'
    rw [finds.load entry same brings, finds'.load entry same' brings]

end Differ

/-! ## A speed command without a speed -/

/-- Type `0x1A` without payload, up to the checksum. -/
def bareSpeed : List UInt8 := [0xF0, 0x5A, 0x1A, 0x00, 0x06]

/-- The interface before its checksum, with zeros in the buffer and behind it. -/
def beforeBareSpeed (earlier : List UInt8) : Interface :=
  (interfaceFSM (fun _ _ => 0) (fun _ s => s)).after (.init (Vector.replicate 64 0))
    (earlier ++ bareSpeed)

/-- The packet that the checksum completes. -/
def bareSpeedPacket (earlier : List UInt8) : Packet :=
  ((beforeBareSpeed earlier).handler.store (beforeBareSpeed earlier).handler.packetIdx
    0x5E).packet (fun _ _ => 0)

theorem bareSpeed_dispatches (earlier : List UInt8)
    (running : (beforeBareSpeed earlier).server.running = true)
    (state : (beforeBareSpeed earlier).handler.state = .waitingForCrc)
    (checked : checkPacket (bareSpeedPacket earlier) = true) :
    Dispatches (fun _ _ => 0) (beforeBareSpeed earlier) 0x5E (bareSpeedPacket earlier) :=
  dispatches_of_checked running state rfl checked

/-- Not all histories that accept it show it the same input. -/
theorem bare_speed_undetermined :
    ¬ ∀ history history' q q' data data', q.Same (bareSpeedPacket []) →
      q'.Same (bareSpeedPacket []) →
      Finds (fun _ _ => 0) (fun _ s => s) (Vector.replicate 64 0) history q data →
      Finds (fun _ _ => 0) (fun _ s => s) (Vector.replicate 64 0) history' q' data' →
      data.load 0 2 = data'.load 0 2 := by
  have dispatches := bareSpeed_dispatches [] (by decide +kernel) (by decide +kernel)
    (by decide +kernel)
  have decided := input_determined_iff (fun _ _ => 0) (fun _ s => s) (Vector.replicate 64 0)
    (Vector.replicate 64 0) (p := bareSpeedPacket []) (r := response[13]) (by decide +kernel)
    ⟨_, _, _, _, rfl, dispatches⟩
  intro determined
  rcases decided.mp determined with none | brings
  · exact absurd none (by decide)
  · exact absurd brings (by decide +kernel)

/-- After reset it sets the speed zero, after a wrong reset key the speed `0xFFFF`. -/
theorem bare_speed_replays_key :
    (bareSpeedPacket wrongKey.bytes).Same (bareSpeedPacket []) ∧
    ∃ data data',
      Finds (fun _ _ => 0) (fun _ s => s) (Vector.replicate 64 0) ([] ++ bareSpeed ++ [0x5E])
        (bareSpeedPacket []) data ∧
      Finds (fun _ _ => 0) (fun _ s => s) (Vector.replicate 64 0)
        (wrongKey.bytes ++ bareSpeed ++ [0x5E]) (bareSpeedPacket wrongKey.bytes) data' ∧
      data.load 0 2 = [0x00, 0x00] ∧ data'.load 0 2 = [0xFF, 0xFF] := by
  have first := bareSpeed_dispatches [] (by decide +kernel) (by decide +kernel)
    (by decide +kernel)
  have second := bareSpeed_dispatches wrongKey.bytes (by decide +kernel)
    (by decide +kernel) (by decide +kernel)
  have entry : (bareSpeedPacket []).entry = some response[13] := by decide +kernel
  have entry' : (bareSpeedPacket wrongKey.bytes).entry = some response[13] := by decide +kernel
  refine ⟨⟨by decide +kernel, by decide +kernel⟩, _, _,
    ⟨_, _, .commsSetSpeed, rfl, first, (first.found entry).mpr ⟨rfl, rfl⟩⟩,
    ⟨_, _, .commsSetSpeed, rfl, second, (second.found entry').mpr ⟨rfl, rfl⟩⟩, ?_, ?_⟩
  · decide +kernel
  · decide +kernel

end OlympusFirmware.Olympus
